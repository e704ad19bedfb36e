-- SUMMARY: Pruning and growing the generic tree: what is removed, what is appended, and which trees can be built.
import TalOS.Lib.Run
import TalOS.Libk.Tree

/-!
# Changing a tree

`tree_pruneSubTree` takes a child out of the list of its parent's children and
hands it to a recursion that is to free it with everything below. `tree_addChild`
walks to the last child and stores the new node behind it; there has to be one.
-/

open MachineInt

namespace TalOS

variable {s s' : TreeState} {F : Forest Nat} {p x n root : Nat}

/-! ## Pruning -/

/-- What pruning `n` is to do: the tree without it, with the same payloads, and `kfree` for each node of the
subtree. -/
structure PrunesOne (s s' : TreeState) (root : Nat) (F : Forest Nat) (n : Nat) : Prop where
  unlinked : s'.Spans root (F.remove n)
  payloads : ∀ x ∈ (F.remove n).nodes, (s'.node x).nodePtr = (s.node x).nodePtr
  freed : ∃ freed, s'.heap.freed = s.heap.freed ++ freed ∧ freed.Perm (n :: (F.kidsOf n).nodes)

/-- `tree_pruneSubTree` removes a child and reports it, and refuses anything else. -/
def Prunes (s : TreeState) (root : Nat) (F : Forest Nat) (parent n : Nat) : Prop :=
  ∃ fuel ret s', treePruneSubTree fuel s parent n = some (ret, s') ∧
    if n ∈ F.childrenOf parent then ret = TREE_T_OK ∧ PrunesOne s s' root F n else ret = TREE_T_NOK ∧ s' = s

/-- The recursion never reports success. -/
theorem treePruneSubTreeInter_ret {fuel : Nat} {r : Int × TreeState}
    (hr : treePruneSubTreeInter fuel s n = some r) : r.1 = TREE_T_NOK := by
  cases fuel with
  | zero => cases hr
  | succ fuel =>
    rw [treePruneSubTreeInter, Option.bind_eq_some_iff] at hr
    obtain ⟨_, -, hr⟩ := hr
    rw [Option.bind_eq_some_iff] at hr
    obtain ⟨_, -, hr⟩ := hr
    split at hr
    · rw [← Option.some.inj hr]
    · rw [Option.map_eq_some_iff] at hr
      obtain ⟨_, -, rfl⟩ := hr
      split <;> rfl

/-- Nor does the function. -/
theorem treePruneSubTree_ret {fuel parent : Nat} {r : Int × TreeState}
    (hr : treePruneSubTree fuel s parent n = some r) : r.1 = TREE_T_NOK := by
  rw [treePruneSubTree, Option.bind_eq_some_iff] at hr
  obtain ⟨_, -, hr⟩ := hr
  split at hr
  · rw [Option.bind_eq_some_iff] at hr
    obtain ⟨_, -, hr⟩ := hr
    rw [Option.bind_eq_some_iff] at hr
    obtain ⟨_, -, hr⟩ := hr
    exact treePruneSubTreeInter_ret hr
  · rw [Option.bind_eq_some_iff] at hr
    obtain ⟨_, -, hr⟩ := hr
    rw [Option.bind_eq_some_iff] at hr
    obtain ⟨_, -, hr⟩ := hr
    split at hr
    · rw [← Option.some.inj hr]
    · exact treePruneSubTreeInter_ret hr

/-- The loop passes over a list without `n`. -/
theorem treePruneLoop_absent {l : List Nat} {fuel prev curr : Nat} (hseg : Forest.Seg s.next 0 curr l)
    (habsent : n ∉ l) (hfuel : l.length < fuel) : treePruneLoop n fuel s prev curr = some (0, s) := by
  obtain ⟨fuel, rfl⟩ := Nat.exists_eq_add_of_le' (Nat.succ_le_of_lt (Nat.zero_lt_of_lt hfuel))
  induction l generalizing fuel prev curr with
  | nil =>
    have hcurr : curr = 0 := hseg
    rw [treePruneLoop, if_neg (not_not_intro hcurr), hcurr]
  | cons a l ih =>
    obtain ⟨rfl, hnull, hrest⟩ := hseg
    rw [List.mem_cons, not_or] at habsent
    rw [List.length_cons, Nat.succ_lt_succ_iff] at hfuel
    obtain ⟨fuel, rfl⟩ := Nat.exists_eq_add_of_le' (Nat.succ_le_of_lt (Nat.zero_lt_of_lt hfuel))
    rw [treePruneLoop, if_pos hnull, if_neg (Ne.symm habsent.1), TreeState.deref_ne hnull, Option.bind_some]
    exact ih hrest habsent.2 fuel hfuel

/-- Looking for a node that is no child, among one child or more. -/
theorem treePruneSubTree_absent {l : List Nat} {a parent : Nat} (hparent : parent ≠ 0)
    (hseg : Forest.Seg s.next 0 (s.children parent) (a :: l)) (habsent : n ∉ a :: l) :
    treePruneSubTree (l.length + 1) s parent n = some (TREE_T_NOK, s) := by
  obtain ⟨hfirst, hnull, hrest⟩ := hseg
  rw [List.mem_cons, not_or] at habsent
  have hchildren : (s.node parent).children = a := hfirst
  have hne : a ≠ n := Ne.symm habsent.1
  rw [treePruneSubTree, TreeState.deref_ne hparent, Option.bind_some, hchildren, if_neg hne,
    TreeState.deref_ne hnull, Option.bind_some, show (s.node a).next = s.next a from rfl,
    treePruneLoop_absent hrest habsent.2 (Nat.lt_succ_self _), Option.bind_some, if_pos rfl]

/-- For every tree, every node `parent` and every node `n`: pruning does what it is to do iff `n` is no child of
`parent`, but `parent` has one. -/
theorem treePruneSubTree_prunes_iff (s : TreeState) (root : Nat) (F : Forest Nat) (parent n : Nat)
    (h : s.Spans root F) (hparent : parent ∈ F.nodes) (hn : n ≠ 0) :
    Prunes s root F parent n ↔ n ∉ F.childrenOf parent ∧ F.childrenOf parent ≠ [] := by
  have hnull : parent ≠ 0 := Forest.Spans.ne_null h hparent
  have hseg : Forest.Seg s.next 0 (s.children parent) (F.childrenOf parent) :=
    Forest.Spans.seg_childrenOf h hparent
  constructor
  · rintro ⟨fuel, ret, s', hrun, hresult⟩
    have hret : ret = TREE_T_NOK := treePruneSubTree_ret hrun
    have habsent : n ∉ F.childrenOf parent := by
      intro hchild
      rw [if_pos hchild, hret] at hresult
      exact absurd hresult.1 (by decide)
    refine ⟨habsent, fun hempty => ?_⟩
    -- Without children the first one, which is `NULL`, is dereferenced.
    rw [hempty] at hseg
    have hchildren : (s.node parent).children = 0 := hseg
    rw [treePruneSubTree, TreeState.deref_ne hnull, Option.bind_some, hchildren, if_neg (Ne.symm hn)] at hrun
    cases hrun
  · rintro ⟨habsent, hsome⟩
    obtain ⟨a, l, hl⟩ := List.exists_cons_of_ne_nil hsome
    rw [hl] at hseg
    refine ⟨_, _, _, treePruneSubTree_absent hnull hseg (hl ▸ habsent), ?_⟩
    rw [if_neg habsent]
    exact ⟨rfl, rfl⟩

/-- A node is not its own child. -/
theorem treePruneSubTree_prunes_self :
    Prunes familyTree 16 (.cons 16 (.cons 28 .nil (.cons 40 .nil .nil)) .nil) 16 16 :=
  (treePruneSubTree_prunes_iff familyTree 16 _ 16 16 familyTree_spans (by decide) (by decide)).mpr (by decide)

/-- Pruning the child of a node is reported as a failure. -/
theorem not_treePruneSubTree_prunes :
    ¬ ∀ (s : TreeState) (root : Nat) (F : Forest Nat) (parent n : Nat), s.Spans root F → parent ∈ F.nodes →
      n ≠ 0 → Prunes s root F parent n := by
  intro hall
  obtain ⟨fuel, ret, s', hrun, hresult⟩ := hall familyTree 16 _ 16 28 familyTree_spans (by decide) (by decide)
  rw [if_pos (by decide), show ret = TREE_T_NOK from treePruneSubTree_ret hrun] at hresult
  exact absurd hresult.1 (by decide)

/-! ## What is freed instead -/

/-- Down to first children, and to siblings where there are none. -/
def lastReached : Forest Nat → Nat
  | .nil => 0
  | .cons a .nil .nil => a
  | .cons _ .nil (.cons b kids rest) => lastReached (.cons b kids rest)
  | .cons _ (.cons b kids rest) _ => lastReached (.cons b kids rest)

/-- The recursion frees one node: the leaf that it ends at, be it below a sibling. -/
theorem treePruneSubTreeInter_frees (h : s.Spans p F) (hF : F ≠ .nil) :
    ∃ fuel, treePruneSubTreeInter fuel s p =
      some (TREE_T_NOK, { s with heap := kfree s.heap (lastReached F) }) := by
  induction F generalizing p with
  | nil => exact absurd rfl hF
  | cons a kids rest ihk ihr =>
    have hfail : TREE_T_NOK ≠ TREE_T_OK := by decide
    obtain ⟨rfl, hnull, hkids, hrest⟩ := h
    cases kids with
    | cons b kids' rest' =>
      have hchildren : (s.node p).children ≠ 0 := fun hzero => hkids.2.1 (hkids.1.symm.trans hzero)
      obtain ⟨fuel, hfreed⟩ := ihk hkids (by simp)
      refine ⟨fuel + 1, ?_⟩
      rw [treePruneSubTreeInter, TreeState.deref_ne hnull, Option.bind_some, if_pos hchildren,
        show (s.node p).children = s.children p from rfl, hfreed, Option.bind_some, if_pos hfail]
      rfl
    | nil =>
      have hchildren : (s.node p).children = 0 := hkids
      cases rest with
      | cons b kids' rest' =>
        have hnext : (s.node p).next ≠ 0 := fun hzero => hrest.2.1 (hrest.1.symm.trans hzero)
        obtain ⟨fuel, hfreed⟩ := ihr hrest (by simp)
        refine ⟨fuel + 1, ?_⟩
        rw [treePruneSubTreeInter, TreeState.deref_ne hnull, Option.bind_some, if_neg (not_not_intro hchildren),
          Option.bind_some, if_neg (not_not_intro rfl), if_pos hnext, show (s.node p).next = s.next p from rfl, hfreed,
          Option.map_some, if_pos hfail]
        rfl
      | nil =>
        have hnext : (s.node p).next = 0 := hrest
        refine ⟨1, ?_⟩
        rw [treePruneSubTreeInter, TreeState.deref_ne hnull, Option.bind_some, if_neg (not_not_intro hchildren),
          Option.bind_some, if_neg (not_not_intro rfl), if_neg (not_not_intro hnext), Option.map_some,
          if_neg (not_not_intro rfl)]
        rfl

/-! ## Appending a child -/

/-- What appending a child to `x` is to do: one more child behind the others, with the payload; the other nodes
keep theirs. -/
structure AppendsOneChild (s s' : TreeState) (root : Nat) (F : Forest Nat) (x p a : Nat) : Prop where
  fresh : a ∉ F.nodes
  appended : s'.Spans root (Forest.addChild x a .nil F)
  payload : (s'.node a).nodePtr = p
  payloads : ∀ y ∈ F.nodes, (s'.node y).nodePtr = (s.node y).nodePtr

def AppendsChild (s : TreeState) (root : Nat) (F : Forest Nat) (x p : Nat) : Prop :=
  ∃ fuel s' a, treeAddChild fuel s x p = some (TREE_T_OK, s') ∧ AppendsOneChild s s' root F x p a

/-- A new node can be had, behind all nodes of the tree. -/
structure HasRoom (s : TreeState) (F : Forest Nat) : Prop where
  block : (kmalloc s.heap SIZEOF_TREE_NODE).1 ≠ 0
  below : ∀ y ∈ F.nodes, y < s.heap.currentPointer

theorem treeLastLoop_seg {pre : List Nat} {last fuel curr : Nat} (hseg : Forest.Seg s.next 0 curr (pre ++ [last]))
    (hfuel : pre.length < fuel) : treeLastLoop s fuel curr = some last := by
  obtain ⟨fuel, rfl⟩ := Nat.exists_eq_add_of_le' (Nat.succ_le_of_lt (Nat.zero_lt_of_lt hfuel))
  induction pre generalizing fuel curr with
  | nil =>
    obtain ⟨rfl, hnull, hend⟩ := hseg
    have hnext : (s.node curr).next = 0 := hend
    rw [treeLastLoop, TreeState.deref_ne hnull, Option.bind_some, if_neg (not_not_intro hnext)]
  | cons a pre ih =>
    obtain ⟨rfl, hnull, hrest⟩ := hseg
    have hnext : (s.node curr).next ≠ 0 := by
      cases pre with
      | nil => exact fun hzero => hrest.2.1 (hrest.1.symm.trans hzero)
      | cons b pre => exact fun hzero => hrest.2.1 (hrest.1.symm.trans hzero)
    rw [List.length_cons, Nat.succ_lt_succ_iff] at hfuel
    obtain ⟨fuel, rfl⟩ := Nat.exists_eq_add_of_le' (Nat.succ_le_of_lt (Nat.zero_lt_of_lt hfuel))
    rw [treeLastLoop, TreeState.deref_ne hnull, Option.bind_some, if_pos hnext]
    exact ih hrest fuel hfuel

/-- Without a child, `tree_getLastChild` dereferences `NULL`. -/
theorem treeGetLastChild_childless (fuel : Nat) (hchildren : s.children x = 0) : treeGetLastChild fuel s x = none := by
  rw [treeGetLastChild, TreeState.deref]
  split
  · rfl
  · rw [Option.bind_some, show (s.node x).children = 0 from hchildren]
    cases fuel with
    | zero => rfl
    | succ fuel => rw [treeLastLoop, TreeState.deref_zero, Option.bind_none]

theorem treeAddChild_childless (fuel p : Nat) (hchildren : s.children x = 0) : treeAddChild fuel s x p = none := by
  rw [treeAddChild, treeGetLastChild_childless fuel hchildren, Option.bind_none]

theorem treeAddSubTree_childless (fuel tree : Nat) (hchildren : s.children x = 0) :
    treeAddSubTree fuel s x tree = none := by
  rw [treeAddSubTree, treeGetLastChild_childless fuel hchildren, Option.bind_none]

/-- What is stored when there is a last child. -/
theorem treeAddChild_last {fuel last : Nat} (p : Nat) (hlast : treeGetLastChild fuel s x = some last)
    (hnull : last ≠ 0) (hblock : (kmalloc s.heap SIZEOF_TREE_NODE).1 ≠ 0) (hne : last ≠ s.heap.currentPointer) :
    ∃ heap, treeAddChild fuel s x p =
      some (TREE_T_OK, ⟨heap, Function.update (Function.update s.node last { s.node last with
        next := s.heap.currentPointer }) s.heap.currentPointer ⟨p, 0, 0⟩⟩) := by
  have hstart := (kmalloc_ne_zero hblock).1
  refine ⟨(kmalloc s.heap SIZEOF_TREE_NODE).2, ?_⟩
  rw [treeAddChild, hlast, Option.bind_some, treeAllocNode, if_neg hblock]
  rw [hstart] at hblock ⊢
  simp only [TreeState.update, if_neg hnull, if_neg hblock, Option.bind_some, Option.map_some,
    Function.update_of_ne hne, Function.update_of_ne hne.symm, Function.update_self]
  rw [Function.update_comm hne, Function.update_idem, Function.update_comm hne]

/-- A node that has a child gets one more. -/
theorem treeAddChild_appendsChild (h : s.Spans root F) (hnodup : F.nodes.Nodup) (hx : x ∈ F.nodes)
    (hroom : HasRoom s F) (hsome : F.childrenOf x ≠ []) (p : Nat) : AppendsChild s root F x p := by
  obtain ⟨pre, last, hchildren⟩ : ∃ pre last, F.childrenOf x = pre ++ [last] :=
    ⟨_, _, (List.dropLast_append_getLast hsome).symm⟩
  have hnull : x ≠ 0 := Forest.Spans.ne_null h hx
  have hlastMem : last ∈ F.nodes := by
    refine Forest.childrenOf_subset F (x := x) ?_
    rw [hchildren]
    exact List.mem_append_right _ List.mem_cons_self
  have hseg : Forest.Seg s.next 0 (s.children x) (pre ++ [last]) := hchildren ▸ Forest.Spans.seg_childrenOf h hx
  have hlast : treeGetLastChild (pre.length + 1) s x = some last := by
    rw [treeGetLastChild, TreeState.deref_ne hnull, Option.bind_some]
    exact treeLastLoop_seg hseg (Nat.lt_succ_self _)
  have hnot {y : Nat} (hy : y ∈ F.nodes) : y ≠ s.heap.currentPointer := Nat.ne_of_lt (hroom.below y hy)
  obtain ⟨heap, hrun⟩ := treeAddChild_last p hlast (Forest.Spans.ne_null h hlastMem) hroom.block (hnot hlastMem)
  have hpointer : s.heap.currentPointer ≠ 0 := (kmalloc_ne_zero hroom.block).1 ▸ hroom.block
  refine ⟨_, _, s.heap.currentPointer, hrun, fun hmem => hnot hmem rfl, ?_, ?_, fun y hy => ?_⟩
  · have hspans : Forest.Spans s.children s.next 0 root F := h
    refine hspans.addChild hnodup hx hchildren ?_ ?_ fun y hy => ?_
    · simp [Forest.Spans, TreeState.children, TreeState.next, hpointer]
    · simp [TreeState.next, hnot hlastMem]
    · by_cases hyl : y = last
      · subst hyl
        simp [TreeState.children, hnot hy]
      · simp [TreeState.children, TreeState.next, hnot hy, hyl]
  · simp
  · by_cases hyl : y = last
    · subst hyl
      simp [hnot hy]
    · simp [hnot hy, hyl]

theorem appendsChild_iff (h : s.Spans root F) (hnodup : F.nodes.Nodup) (hx : x ∈ F.nodes) (hroom : HasRoom s F)
    (p : Nat) : AppendsChild s root F x p ↔ F.childrenOf x ≠ [] := by
  constructor
  · rintro ⟨fuel, s', a, hrun, -⟩ hempty
    have hseg := Forest.Spans.seg_childrenOf h hx
    rw [hempty] at hseg
    rw [treeAddChild_childless fuel p hseg] at hrun
    cases hrun
  · exact fun hsome => treeAddChild_appendsChild h hnodup hx hroom hsome p

/-! ## Building trees -/

/-- The calls that trees are to be built with. -/
inductive TreeOp where
  | create
  | addChild (parent nodePtr : Nat)
  | addSubTree (parent tree : Nat)
deriving Repr, DecidableEq

/-- The memory, and the nodes made so far. -/
structure TreeRun where
  state : TreeState
  made : List Nat

def TreeOp.step (fuel : Nat) : TreeOp → TreeRun → Option TreeRun
  | .create, r =>
    let newNode := treeInitialize r.state
    some ⟨newNode.2, if newNode.1 = 0 then r.made else newNode.1 :: r.made⟩
  | .addChild parent nodePtr, r =>
    (treeAddChild fuel r.state parent nodePtr).map fun result =>
      ⟨result.2, if result.1 = TREE_T_OK then (treeAllocNode r.state).1 :: r.made else r.made⟩
  | .addSubTree parent tree, r => (treeAddSubTree fuel r.state parent tree).map fun s => ⟨s, r.made⟩

/-- A call on nodes that earlier calls have made. -/
def TreeOp.Given : TreeOp → TreeRun → Prop
  | .create, _ => True
  | .addChild parent _, r => parent ∈ r.made
  | .addSubTree parent tree, r => parent ∈ r.made ∧ tree ∈ r.made

/-- What sequences of such calls lead to. -/
def TreeRun.Reachable (s₀ : TreeState) (r : TreeRun) : Prop :=
  ∃ fuel ops, Run.Along (TreeOp.step fuel) TreeOp.Given ops ⟨s₀, []⟩ ∧
    Run.run (TreeOp.step fuel) ops ⟨s₀, []⟩ = some r

/-- Some sequence of calls builds the tree of payloads `t`. -/
def Builds (s₀ : TreeState) (t : Forest Nat) : Prop :=
  ∃ (r : TreeRun) (root : Nat) (F : Forest Nat), r.Reachable s₀ ∧ root ∈ r.made ∧ r.state.Spans root F ∧
    F.map (fun x => (r.state.node x).nodePtr) = t

/-- All nodes are as `tree_initialize` leaves them. -/
def TreeRun.Bare (r : TreeRun) : Prop := ∀ x ∈ r.made, x ≠ 0 ∧ r.state.node x = ⟨0, 0, 0⟩

theorem treeAllocNode_of_ne (hblock : (kmalloc s.heap SIZEOF_TREE_NODE).1 ≠ 0) :
    treeAllocNode s = ((kmalloc s.heap SIZEOF_TREE_NODE).1,
      ⟨(kmalloc s.heap SIZEOF_TREE_NODE).2,
        Function.update s.node (kmalloc s.heap SIZEOF_TREE_NODE).1 ⟨0, 0, 0⟩⟩) := if_neg hblock

/-- The other two calls end in a `NULL` pointer. -/
theorem TreeOp.step_bare {fuel : Nat} (op : TreeOp) (r r' : TreeRun) (hgiven : op.Given r) (hbare : r.Bare)
    (hstep : op.step fuel r = some r') : r'.Bare := by
  have hchildless {y : Nat} (hy : y ∈ r.made) : r.state.children y = 0 := by
    rw [TreeState.children, (hbare y hy).2]
  cases op with
  | create =>
    obtain rfl := Option.some.inj hstep
    by_cases hblock : (kmalloc r.state.heap SIZEOF_TREE_NODE).1 = 0
    · have hnone : treeInitialize r.state = (0, { r.state with heap := (kmalloc r.state.heap SIZEOF_TREE_NODE).2 }) :=
        if_pos hblock
      rw [hnone]
      exact hbare
    · rw [treeInitialize, treeAllocNode_of_ne hblock]
      intro y hy
      dsimp only at hy ⊢
      rw [if_neg hblock] at hy
      rcases eq_or_ne y (kmalloc r.state.heap SIZEOF_TREE_NODE).1 with rfl | hne
      · exact ⟨hblock, Function.update_self ..⟩
      · rw [Function.update_of_ne hne]
        exact hbare y ((List.mem_cons.mp hy).resolve_left hne)
  | addChild parent nodePtr =>
    rw [step, treeAddChild_childless fuel nodePtr (hchildless hgiven), Option.map_none] at hstep
    cases hstep
  | addSubTree parent tree =>
    rw [step, treeAddSubTree_childless fuel tree (hchildless hgiven.1), Option.map_none] at hstep
    cases hstep

theorem TreeRun.Reachable.bare {s₀ : TreeState} {r : TreeRun} (h : r.Reachable s₀) : r.Bare := by
  obtain ⟨fuel, ops, halong, hrun⟩ := h
  refine Run.run_preserves (fun op r r' => TreeOp.step_bare op r r') halong hrun fun x hx => ?_
  cases hx

/-- Every tree that is reached is a single node. -/
theorem TreeRun.Bare.single {r : TreeRun} (hbare : r.Bare) (hroot : root ∈ r.made) (h : r.state.Spans root F) :
    F = .cons root .nil .nil := by
  obtain ⟨hnull, hnode⟩ := hbare root hroot
  refine Forest.Spans.unique h ⟨rfl, hnull, ?_, ?_⟩
  · show r.state.children root = 0
    rw [TreeState.children, hnode]
  · show r.state.next root = 0
    rw [TreeState.next, hnode]

theorem builds_iff {s₀ : TreeState} (hblock : (kmalloc s₀.heap SIZEOF_TREE_NODE).1 ≠ 0) (p : Nat)
    (kids : Forest Nat) : Builds s₀ (.cons p kids .nil) ↔ p = 0 ∧ kids = .nil := by
  constructor
  · rintro ⟨r, root, F, hreach, hroot, hspans, ht⟩
    obtain rfl := hreach.bare.single hroot hspans
    rw [Forest.map, (hreach.bare root hroot).2, Forest.cons.injEq] at ht
    exact ⟨ht.1.symm, ht.2.1.symm⟩
  · rintro ⟨rfl, rfl⟩
    have hnew := treeAllocNode_of_ne hblock
    refine ⟨⟨(treeInitialize s₀).2, [(treeInitialize s₀).1]⟩, (treeInitialize s₀).1,
      .cons (treeInitialize s₀).1 .nil .nil, ⟨0, [.create], ⟨trivial, fun _ _ => trivial⟩, ?_⟩,
      List.mem_cons_self, ?_, ?_⟩
    · rw [treeInitialize, hnew]
      simp [Run.run, TreeOp.step, treeInitialize, hnew, hblock]
    · rw [treeInitialize, hnew]
      simp [TreeState.Spans, Forest.Spans, TreeState.children, TreeState.next, hblock]
    · rw [treeInitialize, hnew]
      simp [Forest.map]

/-- From every memory in which a node can be allocated: a tree of payloads can be built iff it is a single node with
the payload `NULL`. Over every tree, `tree_addChild` appends a child iff there is one already; and in a tree that is
reached it appends one to no node. -/
theorem tree_api_iff (s₀ : TreeState) (payload : Nat) (kids : Forest Nat)
    (hblock : (kmalloc s₀.heap SIZEOF_TREE_NODE).1 ≠ 0) :
    (Builds s₀ (.cons payload kids .nil) ↔ payload = 0 ∧ kids = .nil) ∧
      (∀ (s : TreeState) (root : Nat) (F : Forest Nat) (x p : Nat), s.Spans root F → F.nodes.Nodup →
        x ∈ F.nodes → HasRoom s F → (AppendsChild s root F x p ↔ F.childrenOf x ≠ [])) ∧
      ∀ r : TreeRun, r.Reachable s₀ → ∀ root ∈ r.made, ∀ F : Forest Nat, r.state.Spans root F →
        ∀ x ∈ F.nodes, ∀ p, ¬ AppendsChild r.state root F x p := by
  refine ⟨builds_iff hblock payload kids,
    fun s root F x p h hnodup hx hroom => appendsChild_iff h hnodup hx hroom p, ?_⟩
  rintro r hreach root hroot F hspans x hx p ⟨fuel, s', a, hrun, -⟩
  obtain rfl := hreach.bare.single hroot hspans
  obtain rfl : x = root := by simpa [Forest.nodes] using hx
  have hchildren : r.state.children x = 0 := by rw [TreeState.children, (hreach.bare x hroot).2]
  rw [treeAddChild_childless fuel p hchildren] at hrun
  cases hrun

/-- A single node, and a second child of a node that has one. -/
theorem tree_api_single_second :
    Builds familyTree (.cons 0 .nil .nil) ∧
      AppendsChild familyTree 16 (.cons 16 (.cons 28 .nil (.cons 40 .nil .nil)) .nil) 16 9 := by
  obtain ⟨hbuilds, happends, -⟩ := tree_api_iff familyTree 0 .nil (by decide)
  refine ⟨hbuilds.mpr ⟨rfl, rfl⟩, (happends familyTree 16 _ 16 9 familyTree_spans ?_ ?_ ?_).mpr ?_⟩
  · decide
  · decide
  · exact ⟨by decide, by decide⟩
  · decide

/-- A node with a child is never built: a new node gets none. -/
theorem not_tree_api :
    ¬ Builds familyTree (.cons 0 (.cons 0 .nil .nil) .nil) ∧
      ∀ fuel p, treeAddChild fuel (treeInitialize familyTree).2 (treeInitialize familyTree).1 p = none := by
  constructor
  · rw [builds_iff (by decide)]
    simp
  · exact fun fuel p => treeAddChild_childless fuel p (by decide)

end TalOS
