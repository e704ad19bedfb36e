-- SUMMARY: The generic tree of `libk/tree.c`, and what its two searches find.
import TalOS.Lib.Forest
import TalOS.Libk.Kheap

/-!
# `libk/tree.c`

A node has a payload, a pointer to its first child and one to its next sibling. A
`NULL` pointer cannot be dereferenced: where the code does so, there is no result.
Loops and recursions take as many turns as they are given; one that has not come to
its end by then has no result either.
-/

open MachineInt

namespace TalOS

/-! ## The code -/

/-- `sizeof(tree_node_t)` on IA32. -/
def SIZEOF_TREE_NODE : Nat := 12

def TREE_T_OK : Int := 0
def TREE_T_NOK : Int := -1

/-- `tree_node_t` -/
structure TreeNode where
  nodePtr : Nat
  next : Nat
  children : Nat
deriving Repr, DecidableEq

/-- The heap, and the nodes in memory. -/
structure TreeState where
  heap : Kheap
  node : Nat → TreeNode

namespace TreeState

def deref (s : TreeState) (p : Nat) : Option TreeNode := if p = 0 then none else some (s.node p)

/-- Store into the fields of a node. -/
def update (s : TreeState) (p : Nat) (f : TreeNode → TreeNode) : Option TreeState :=
  if p = 0 then none else some { s with node := Function.update s.node p (f (s.node p)) }

def next (s : TreeState) (p : Nat) : Nat := (s.node p).next

def children (s : TreeState) (p : Nat) : Nat := (s.node p).children

/-- The forest in memory from a pointer on. -/
def Spans (s : TreeState) (p : Nat) (F : Forest Nat) : Prop := Forest.Spans s.children s.next 0 p F

end TreeState

/-- `tree_allocNode` -/
def treeAllocNode (s : TreeState) : Nat × TreeState :=
  let newNode := kmalloc s.heap SIZEOF_TREE_NODE
  if newNode.1 = 0 then (0, { s with heap := newNode.2 })
  else (newNode.1, ⟨newNode.2, Function.update s.node newNode.1 ⟨0, 0, 0⟩⟩)

/-- `tree_initialize` -/
def treeInitialize (s : TreeState) : Nat × TreeState := treeAllocNode s

/-- The loop of `tree_getLastChild`. -/
def treeLastLoop (s : TreeState) : Nat → Nat → Option Nat
  | 0, _ => none
  | fuel + 1, currChild =>
    (s.deref currChild).bind fun n => if n.next ≠ 0 then treeLastLoop s fuel n.next else some currChild

/-- `tree_getLastChild` -/
def treeGetLastChild (fuel : Nat) (s : TreeState) (parent : Nat) : Option Nat :=
  (s.deref parent).bind fun n => treeLastLoop s fuel n.children

/-- `tree_pruneSubTree_inter` -/
def treePruneSubTreeInter : Nat → TreeState → Nat → Option (Int × TreeState)
  | 0, _, _ => none
  | fuel + 1, s, node =>
    (s.deref node).bind fun n =>
      (if n.children ≠ 0 then treePruneSubTreeInter fuel s n.children else some (TREE_T_OK, s)).bind fun kids =>
        if kids.1 ≠ TREE_T_OK then some (TREE_T_NOK, kids.2)
        else
          (if n.next ≠ 0 then treePruneSubTreeInter fuel kids.2 n.next else some (TREE_T_OK, kids.2)).map
            fun rest =>
              if rest.1 ≠ TREE_T_OK then (TREE_T_NOK, rest.2)
              else (TREE_T_NOK, { rest.2 with heap := kfree rest.2.heap node })

/-- The loop of `tree_pruneSubTree`: `curr` at its end, and the memory. -/
def treePruneLoop (node : Nat) : Nat → TreeState → Nat → Nat → Option (Nat × TreeState)
  | 0, _, _, _ => none
  | fuel + 1, s, prev, curr =>
    if curr ≠ 0 then
      if curr = node then
        (s.deref node).bind fun n => (s.update prev fun p => { p with next := n.next }).map fun s => (curr, s)
      else (s.deref curr).bind fun c => treePruneLoop node fuel s curr c.next
    else some (curr, s)

/-- `tree_pruneSubTree` -/
def treePruneSubTree (fuel : Nat) (s : TreeState) (parent node : Nat) : Option (Int × TreeState) :=
  (s.deref parent).bind fun p =>
    if p.children = node then
      (s.deref node).bind fun n =>
        (s.update parent fun p => { p with children := n.next }).bind fun s => treePruneSubTreeInter fuel s node
    else
      (s.deref p.children).bind fun prev =>
        (treePruneLoop node fuel s p.children prev.next).bind fun r =>
          if r.1 = 0 then some (TREE_T_NOK, r.2) else treePruneSubTreeInter fuel r.2 node

/-- The loop of `tree_findChild`: the node found or `NULL`, and the pointers that `compFun` was called with, in
order. -/
def treeFindChildLoop (s : TreeState) (compFun : Nat → Int) : Nat → Nat → Option (Nat × List Nat)
  | 0, _ => none
  | fuel + 1, currNode =>
    if compFun currNode = TREE_T_OK then some (currNode, [currNode])
    else
      (s.deref currNode).bind fun n =>
        if n.next ≠ 0 then (treeFindChildLoop s compFun fuel n.next).map fun r => (r.1, currNode :: r.2)
        else some (0, [currNode])

/-- `tree_findChild` -/
def treeFindChild (fuel : Nat) (s : TreeState) (compFun : Nat → Int) (parent : Nat) : Option (Nat × List Nat) :=
  (s.deref parent).bind fun p =>
    if p.children ≠ 0 then treeFindChildLoop s compFun fuel p.children else some (0, [])

/-- `tree_findNodeRecursive`, with the same record of the pointers passed. -/
def treeFindNodeRecursive (s : TreeState) (compFun : Nat → Int) : Nat → Nat → Option (Nat × List Nat)
  | 0, _ => none
  | fuel + 1, node =>
    if compFun node = TREE_T_OK then some (node, [node])
    else
      (s.deref node).bind fun n =>
        (if n.children ≠ 0 then treeFindNodeRecursive s compFun fuel n.children else some (0, [])).bind fun kids =>
          -- The second search starts at the children again.
          (if n.next ≠ 0 ∧ kids.1 = 0 then treeFindNodeRecursive s compFun fuel n.children
            else some (kids.1, [])).map fun rest => (rest.1, node :: (kids.2 ++ rest.2))

/-- `tree_addChild` -/
def treeAddChild (fuel : Nat) (s : TreeState) (parent nodePtr : Nat) : Option (Int × TreeState) :=
  (treeGetLastChild fuel s parent).bind fun lastChild =>
    let newNode := treeAllocNode s
    (newNode.2.update lastChild fun c => { c with next := newNode.1 }).bind fun s =>
      if newNode.1 = 0 then some (TREE_T_NOK, s)
      else (s.update newNode.1 fun n => { n with nodePtr := nodePtr }).map fun s => (TREE_T_OK, s)

/-- `tree_addSubTree` -/
def treeAddSubTree (fuel : Nat) (s : TreeState) (parent tree : Nat) : Option TreeState :=
  (treeGetLastChild fuel s parent).bind fun lastChild => s.update lastChild fun c => { c with next := tree }

/-! ## Pointers -/

variable {s : TreeState} {F kids rest : Forest Nat} {a p : Nat}

@[simp] theorem TreeState.deref_ne (h : p ≠ 0) : s.deref p = some (s.node p) := if_neg h

@[simp] theorem TreeState.deref_zero : s.deref 0 = none := if_pos rfl

theorem TreeState.Spans.eq_zero_iff (h : s.Spans p F) : p = 0 ↔ F = .nil := by
  cases F with
  | nil => exact iff_of_true h rfl
  | cons b kids rest => exact iff_of_false (fun hp => h.2.1 (h.1.symm.trans hp)) (by simp)

theorem TreeState.Spans.below (h : s.Spans p (.cons a kids rest)) : s.Spans (s.children a) kids := h.2.2.1

section

variable {compFun : Nat → Int}

/-- The first node of a list that satisfies `compFun`, or `NULL`. -/
def firstOf (compFun : Nat → Int) (l : List Nat) : Nat := (l.find? fun x => compFun x = TREE_T_OK).getD 0

theorem firstOf_hit (h : compFun a = TREE_T_OK) (l : List Nat) : firstOf compFun (a :: l) = a := by
  simp [firstOf, h]

theorem firstOf_miss (h : compFun a ≠ TREE_T_OK) (l : List Nat) : firstOf compFun (a :: l) = firstOf compFun l := by
  simp [firstOf, h]

/-- A match in the first part of a list. -/
theorem firstOf_append {l : List Nat} (h : ∃ x ∈ l, compFun x = TREE_T_OK) (l' : List Nat) :
    firstOf compFun l ∈ l ∧ firstOf compFun (l ++ l') = firstOf compFun l := by
  obtain ⟨y, hy⟩ : ∃ y, l.find? (fun x => compFun x = TREE_T_OK) = some y := by
    rw [← Option.isSome_iff_exists, List.find?_isSome]
    simpa using h
  have hmem := List.mem_of_find?_eq_some hy
  simp [firstOf, List.find?_append, hy, hmem]

theorem firstOf_eq_zero_iff {l : List Nat} (h : 0 ∉ l) :
    firstOf compFun l = 0 ↔ ∀ x ∈ l, compFun x ≠ TREE_T_OK := by
  constructor
  · intro hzero x hx hmatch
    exact h (hzero ▸ (firstOf_append ⟨x, hx, hmatch⟩ []).1)
  · intro hnone
    have hfind : l.find? (fun x => compFun x = TREE_T_OK) = none := by simpa using hnone
    rw [firstOf, hfind, Option.getD_none]

/-! ## The search among the children -/

theorem treeFindChildLoop_seg {l : List Nat} {curr : Nat} (hseg : Forest.Seg s.next 0 curr (a :: l)) :
    ∃ called, treeFindChildLoop s compFun (l.length + 1) curr =
      some (firstOf compFun (a :: l), called) ∧ 0 ∉ called := by
  induction l generalizing a curr with
  | nil =>
    obtain ⟨rfl, hnull, hend⟩ := hseg
    have hnext : (s.node curr).next = 0 := hend
    refine ⟨[curr], ?_, by simpa using hnull.symm⟩
    by_cases hhit : compFun curr = TREE_T_OK
    · rw [treeFindChildLoop, if_pos hhit, firstOf_hit hhit]
    · rw [treeFindChildLoop, if_neg hhit, TreeState.deref_ne hnull, Option.bind_some,
        if_neg (not_not_intro hnext), firstOf_miss hhit]
      rfl
  | cons b l ih =>
    obtain ⟨rfl, hnull, hrest⟩ := hseg
    have hnext : (s.node curr).next ≠ 0 := fun hzero => hrest.2.1 (hrest.1.symm.trans hzero)
    by_cases hhit : compFun curr = TREE_T_OK
    · refine ⟨[curr], ?_, by simpa using hnull.symm⟩
      rw [treeFindChildLoop, if_pos hhit, firstOf_hit hhit]
    · obtain ⟨called, hfound, hpassed⟩ := ih hrest
      refine ⟨curr :: called, ?_, by simpa using ⟨hnull.symm, hpassed⟩⟩
      rw [treeFindChildLoop, if_neg hhit, TreeState.deref_ne hnull, Option.bind_some, if_pos hnext,
        show (s.node curr).next = s.next curr from rfl, List.length_cons, hfound, Option.map_some,
        firstOf_miss hhit]

/-- For every tree and node: the first child that satisfies `compFun` is found, and `NULL` is never passed. -/
theorem treeFindChild_finds (h : s.Spans p F) {parent : Nat} (hparent : parent ∈ F.nodes) :
    ∃ fuel called, treeFindChild fuel s compFun parent =
      some (firstOf compFun (F.childrenOf parent), called) ∧ 0 ∉ called := by
  have hnull : parent ≠ 0 := Forest.Spans.ne_null h hparent
  have hseg : Forest.Seg s.next 0 (s.children parent) (F.childrenOf parent) :=
    Forest.Spans.seg_childrenOf h hparent
  cases hl : F.childrenOf parent with
  | nil =>
    rw [hl] at hseg
    have hchildren : (s.node parent).children = 0 := hseg
    refine ⟨0, [], ?_, List.not_mem_nil⟩
    rw [treeFindChild, TreeState.deref_ne hnull, Option.bind_some, if_neg (not_not_intro hchildren)]
    rfl
  | cons a l =>
    rw [hl] at hseg
    have hchildren : (s.node parent).children ≠ 0 := fun hzero => hseg.2.1 (hseg.1.symm.trans hzero)
    obtain ⟨called, hfound, hpassed⟩ := @treeFindChildLoop_seg s a compFun l _ hseg
    refine ⟨l.length + 1, called, ?_, hpassed⟩
    rw [treeFindChild, TreeState.deref_ne hnull, Option.bind_some, if_pos hchildren]
    exact hfound

/-! ## The recursive search -/

/-- The search from a node finds what the search in preorder would find, and never passes `NULL`. -/
def FindsFirst (s : TreeState) (compFun : Nat → Int) (node : Nat) (F : Forest Nat) : Prop :=
  ∃ fuel called, treeFindNodeRecursive s compFun fuel node = some (firstOf compFun F.nodes, called) ∧ 0 ∉ called

/-- One call, at a node that does not satisfy `compFun`. -/
theorem find_succ (h : s.Spans p (.cons a kids rest)) (hmiss : compFun a ≠ TREE_T_OK) (fuel : Nat) :
    treeFindNodeRecursive s compFun (fuel + 1) p =
      (if s.children a ≠ 0 then treeFindNodeRecursive s compFun fuel (s.children a) else some (0, [])).bind
        fun kids =>
          (if s.next a ≠ 0 ∧ kids.1 = 0 then treeFindNodeRecursive s compFun fuel (s.children a)
            else some (kids.1, [])).map fun rest => (rest.1, a :: (kids.2 ++ rest.2)) := by
  obtain ⟨rfl, hnull, -, -⟩ := h
  rw [treeFindNodeRecursive, if_neg hmiss, TreeState.deref_ne hnull]
  rfl

theorem find_hit_here (fuel : Nat) (hhit : compFun p = TREE_T_OK) :
    treeFindNodeRecursive s compFun (fuel + 1) p = some (p, [p]) := by
  rw [treeFindNodeRecursive, if_pos hhit]

/-- `NULL` is dereferenced, unless `compFun` accepts it; nothing is found either way. -/
theorem find_null {fuel : Nat} {r : Nat × List Nat} (hr : treeFindNodeRecursive s compFun fuel 0 = some r) :
    r = (0, [0]) := by
  cases fuel with
  | zero => cases hr
  | succ fuel =>
    rw [treeFindNodeRecursive] at hr
    split at hr
    · exact (Option.some.inj hr).symm
    · cases hr

/-- A match on the way down is found, and it is the first one in preorder. -/
theorem find_on_path (h : s.Spans p F) (hhit : ∃ x ∈ F.firstPath, compFun x = TREE_T_OK) :
    FindsFirst s compFun p F := by
  induction F generalizing p with
  | nil =>
    obtain ⟨x, hx, -⟩ := hhit
    cases hx
  | cons a kids rest ihk _ =>
    by_cases hhere : compFun a = TREE_T_OK
    · obtain ⟨rfl, hnull, -, -⟩ := h
      refine ⟨1, [p], ?_, by simpa using hnull.symm⟩
      rw [find_hit_here 0 hhere, Forest.nodes, firstOf_hit hhere]
    · obtain ⟨x, hx, hmatch⟩ := hhit
      have hxk : x ∈ kids.firstPath := (List.mem_cons.mp hx).resolve_left fun heq => hhere (heq ▸ hmatch)
      obtain ⟨fuel, called, hkids, hnull⟩ := ihk h.below ⟨x, hxk, hmatch⟩
      -- The match below is the first one, as `a` does not satisfy `compFun`.
      obtain ⟨hmem, hfirst⟩ :=
        firstOf_append ⟨x, Forest.firstPath_subset_nodes kids hxk, hmatch⟩ rest.nodes
      have hfound : firstOf compFun kids.nodes ≠ 0 := Forest.Spans.ne_null h.below hmem
      have hchildren : s.children a ≠ 0 := by
        rw [ne_eq, h.below.eq_zero_iff]
        rintro rfl
        cases hxk
      refine ⟨fuel + 1, a :: called, ?_, by simpa using ⟨h.2.1.symm, hnull⟩⟩
      rw [find_succ h hhere, if_pos hchildren, hkids, Option.bind_some, if_neg (fun hagain => hfound hagain.2),
        Option.map_some, List.append_nil, Forest.nodes, firstOf_miss hhere, hfirst]

/-- The node at the end of the way down. -/
def pathEnd (F : Forest Nat) : Nat := F.firstPath.getLastD 0

theorem pathEnd_cons (a : Nat) (kids rest : Forest Nat) :
    pathEnd (.cons a kids rest) = if kids = .nil then a else pathEnd kids := by
  cases kids with
  | nil => rfl
  | cons b kids' rest' => simp [pathEnd, Forest.firstPath]

/-- No match on the way down: if the last node there has no sibling behind it, nothing is found. -/
theorem find_off_path (h : s.Spans p F) (hF : F ≠ .nil) (hmiss : ∀ x ∈ F.firstPath, compFun x ≠ TREE_T_OK)
    (hend : s.next (pathEnd F) = 0) :
    ∃ fuel called, treeFindNodeRecursive s compFun fuel p = some (0, called) ∧ 0 ∉ called := by
  induction F generalizing p with
  | nil => exact absurd rfl hF
  | cons a kids rest ihk _ =>
    obtain ⟨hhere, hbelow⟩ := List.forall_mem_cons.mp hmiss
    rw [pathEnd_cons] at hend
    by_cases hkids : kids = .nil
    · rw [if_pos hkids] at hend
      have hchildren := h.below.eq_zero_iff.mpr hkids
      refine ⟨1, [a], ?_, by simpa using h.2.1.symm⟩
      rw [find_succ h hhere, if_neg (not_not_intro hchildren), Option.bind_some, if_neg (fun hagain => hagain.1 hend)]
      rfl
    · rw [if_neg hkids] at hend
      have hchildren : s.children a ≠ 0 := mt h.below.eq_zero_iff.mp hkids
      obtain ⟨fuel, called, hfound, hnull⟩ := ihk h.below hkids hbelow hend
      -- The search that should go on to the sibling repeats the one below.
      have hnull' : 0 ∉ a :: (called ++ called) := by simpa using ⟨h.2.1.symm, hnull⟩
      by_cases hnext : s.next a = 0
      · refine ⟨fuel + 1, a :: (called ++ []), ?_, fun hmem => hnull' ?_⟩
        · rw [find_succ h hhere, if_pos hchildren, hfound, Option.bind_some, if_neg (fun hagain => hagain.1 hnext)]
          rfl
        · rw [List.append_nil] at hmem
          exact List.mem_cons.mpr ((List.mem_cons.mp hmem).imp_right (List.mem_append_left called))
      · refine ⟨fuel + 1, a :: (called ++ called), ?_, hnull'⟩
        rw [find_succ h hhere, if_pos hchildren, hfound, Option.bind_some, if_pos ⟨hnext, rfl⟩]
        rfl

/-- Without a match on the way down nothing is found; and if the last node there has a sibling, `NULL` is passed. -/
theorem find_miss (h : s.Spans p F) (hF : F ≠ .nil) (hmiss : ∀ x ∈ F.firstPath, compFun x ≠ TREE_T_OK)
    {fuel : Nat} {r : Nat × List Nat} (hr : treeFindNodeRecursive s compFun fuel p = some r) :
    r.1 = 0 ∧ (s.next (pathEnd F) ≠ 0 → 0 ∈ r.2) := by
  induction F generalizing p fuel r with
  | nil => exact absurd rfl hF
  | cons a kids rest ihk _ =>
    obtain ⟨hhere, hbelow⟩ := List.forall_mem_cons.mp hmiss
    cases fuel with
    | zero => cases hr
    | succ fuel =>
      rw [find_succ h hhere] at hr
      rw [pathEnd_cons]
      by_cases hkids : kids = .nil
      · have hchildren := h.below.eq_zero_iff.mpr hkids
        rw [if_pos hkids]
        rw [if_neg (not_not_intro hchildren), Option.bind_some, hchildren] at hr
        by_cases hnext : s.next a = 0
        · rw [if_neg (fun hagain => hagain.1 hnext), Option.map_some] at hr
          obtain rfl := Option.some.inj hr
          exact ⟨rfl, fun hne => absurd hnext hne⟩
        · rw [if_pos ⟨hnext, rfl⟩, Option.map_eq_some_iff] at hr
          obtain ⟨r', hr', rfl⟩ := hr
          obtain rfl := find_null hr'
          exact ⟨rfl, fun _ => by simp⟩
      · have hchildren : s.children a ≠ 0 := mt h.below.eq_zero_iff.mp hkids
        rw [if_neg hkids]
        rw [if_pos hchildren, Option.bind_eq_some_iff] at hr
        obtain ⟨r₁, hr₁, hr⟩ := hr
        obtain ⟨hzero, hpassed⟩ := ihk h.below hkids hbelow hr₁
        rw [Option.map_eq_some_iff] at hr
        obtain ⟨r₂, hr₂, rfl⟩ := hr
        have hzero₂ : r₂.1 = 0 := by
          split at hr₂
          · exact (ihk h.below hkids hbelow hr₂).1
          · obtain rfl := Option.some.inj hr₂
            exact hzero
        exact ⟨hzero₂, fun hend => List.mem_cons_of_mem _ (List.mem_append_left _ (hpassed hend))⟩

/-- For every tree, node and comparison function: the search is a preorder search iff a node on the way down along
first children satisfies `compFun`, or no node at all does and the last one on that way has no sibling behind it. -/
theorem treeFindNodeRecursive_finds_iff (s : TreeState) (node : Nat) (F : Forest Nat) (compFun : Nat → Int)
    (h : s.Spans node F) (hnode : node ≠ 0) :
    FindsFirst s compFun node F ↔
      (∃ x ∈ F.firstPath, compFun x = TREE_T_OK) ∨
        (∀ x ∈ F.nodes, compFun x ≠ TREE_T_OK) ∧ s.next (pathEnd F) = 0 := by
  have hF : F ≠ .nil := mt h.eq_zero_iff.mpr hnode
  have hzeros : 0 ∉ F.nodes := fun hmem => Forest.Spans.ne_null h hmem rfl
  constructor
  · rintro ⟨fuel, called, hrun, hnull⟩
    by_cases hhit : ∃ x ∈ F.firstPath, compFun x = TREE_T_OK
    · exact .inl hhit
    · have hmiss : ∀ x ∈ F.firstPath, compFun x ≠ TREE_T_OK := fun x hx heq => hhit ⟨x, hx, heq⟩
      obtain ⟨hzero, hpassed⟩ := find_miss h hF hmiss hrun
      refine .inr ⟨(firstOf_eq_zero_iff hzeros).mp hzero, ?_⟩
      by_contra hend
      exact hnull (hpassed hend)
  · rintro (hhit | ⟨hnone, hend⟩)
    · exact find_on_path h hhit
    · have hmiss : ∀ x ∈ F.firstPath, compFun x ≠ TREE_T_OK := fun x hx =>
        hnone x (Forest.firstPath_subset_nodes F hx)
      rw [FindsFirst, (firstOf_eq_zero_iff hzeros).mpr hnone]
      exact find_off_path h hF hmiss hend

/-- Node 16 with the child 28, and the sibling 40 behind the child. -/
def familyTree : TreeState where
  heap := initKernelHeap (fun _ => 0) 0 0x1000 0x1000
  node := fun p => if p = 16 then ⟨1, 0, 28⟩ else if p = 28 then ⟨2, 40, 0⟩ else ⟨3, 0, 0⟩

theorem familyTree_spans :
    familyTree.Spans 16 (.cons 16 (.cons 28 .nil (.cons 40 .nil .nil)) .nil) := by
  simp [TreeState.Spans, Forest.Spans, TreeState.children, TreeState.next, familyTree]

/-- The child is found. -/
theorem treeFindNodeRecursive_finds_child :
    FindsFirst familyTree (fun x => if x = 28 then 0 else 1) 16
      (.cons 16 (.cons 28 .nil (.cons 40 .nil .nil)) .nil) :=
  (treeFindNodeRecursive_finds_iff familyTree 16 _ _ familyTree_spans (by decide)).mpr
    (.inl ⟨28, by simp [Forest.firstPath], rfl⟩)

/-- Its sibling is not: `NULL` is passed instead. -/
theorem not_treeFindNodeRecursive_finds :
    ¬ ∀ (s : TreeState) (node : Nat) (F : Forest Nat) (compFun : Nat → Int), s.Spans node F → node ≠ 0 →
      FindsFirst s compFun node F := by
  intro hall
  obtain ⟨fuel, called, hrun, hnull⟩ :=
    hall familyTree 16 _ (fun x => if x = 40 then 0 else 1) familyTree_spans (by decide)
  have hmiss := find_miss familyTree_spans (by simp) (by simp [Forest.firstPath, TREE_T_OK]) hrun
  exact hnull (hmiss.2 (by decide))

end

end TalOS
