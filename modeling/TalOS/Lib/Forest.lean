-- SUMMARY: First-child/next-sibling forests: their lists of children, the pointers that span them, adding and removing a child.
import Mathlib.Data.List.Nodup
import Mathlib.Data.List.Perm.Basic
import Mathlib.Tactic.Common

/-!
# First-child/next-sibling forests

A tree of arbitrary width in two pointers a node: `child` leads to the first
child, `next` to the following sibling. `Forest` is the value that such pointers
span, `Spans` says that they do. `addChild` and `remove` are what storing one
pointer does to it.
-/

inductive Forest (α : Type) where
  | nil
  | cons (a : α) (kids rest : Forest α)
deriving Repr, DecidableEq

namespace Forest

variable {α : Type}

/-- The nodes side by side at the top. -/
def roots : Forest α → List α
  | nil => []
  | cons a _ rest => a :: rest.roots

/-- All nodes, a node before its children, these before its siblings. -/
def nodes : Forest α → List α
  | nil => []
  | cons a kids rest => a :: (kids.nodes ++ rest.nodes)

/-- All nodes, the children and the siblings of a node before itself. -/
def postorder : Forest α → List α
  | nil => []
  | cons a kids rest => kids.postorder ++ rest.postorder ++ [a]

/-- The way down along first children. -/
def firstPath : Forest α → List α
  | nil => []
  | cons a kids _ => a :: kids.firstPath

/-- The same shape over other nodes. -/
def map {β : Type} (f : α → β) : Forest α → Forest β
  | nil => nil
  | cons a kids rest => cons (f a) (kids.map f) (rest.map f)

/-- Put a node with its children behind all others. -/
def snoc : Forest α → α → Forest α → Forest α
  | nil, a, k => cons a k nil
  | cons b kids rest, a, k => cons b kids (rest.snoc a k)

theorem roots_subset_nodes : ∀ F : Forest α, F.roots ⊆ F.nodes
  | nil => List.nil_subset _
  | cons _ kids rest =>
    List.cons_subset_cons _
      (List.Subset.trans (roots_subset_nodes rest) (List.subset_append_right kids.nodes _))

theorem firstPath_subset_nodes : ∀ F : Forest α, F.firstPath ⊆ F.nodes
  | nil => List.nil_subset _
  | cons _ kids _ =>
    List.cons_subset_cons _ (List.Subset.trans (firstPath_subset_nodes kids) (List.subset_append_left _ _))

theorem postorder_perm : ∀ F : Forest α, F.postorder.Perm F.nodes
  | nil => .refl _
  | cons _ kids rest =>
    (List.perm_append_singleton _ _).trans
      (.cons _ (.append (postorder_perm kids) (postorder_perm rest)))

@[simp] theorem roots_snoc (F : Forest α) (a : α) (k : Forest α) :
    (F.snoc a k).roots = F.roots ++ [a] := by
  induction F with
  | nil => rfl
  | cons b kids rest _ ih => exact congrArg (b :: ·) ih

@[simp] theorem nodes_snoc (F : Forest α) (a : α) (k : Forest α) :
    (F.snoc a k).nodes = F.nodes ++ a :: k.nodes := by
  induction F with
  | nil => simp [snoc, nodes]
  | cons b kids rest _ ih =>
    rw [snoc, nodes, nodes, ih, List.cons_append, List.append_assoc]

/-- The parts of a forest without repetitions have none in common. -/
theorem nodup_cons {b : α} {kids rest : Forest α} (h : (cons b kids rest).nodes.Nodup) :
    b ∉ kids.nodes ∧ b ∉ rest.nodes ∧ kids.nodes.Nodup ∧ rest.nodes.Nodup ∧
      ∀ x ∈ kids.nodes, x ∉ rest.nodes := by
  rw [nodes, List.nodup_cons, List.mem_append, not_or, List.nodup_append] at h
  obtain ⟨⟨hk, hr⟩, hkids, hrest, hdisj⟩ := h
  exact ⟨hk, hr, hkids, hrest, fun x hx hx' => hdisj x hx x hx' rfl⟩

theorem nodup_roots {F : Forest α} (h : F.nodes.Nodup) : F.roots.Nodup := by
  induction F with
  | nil => exact h
  | cons b kids rest _ ih =>
    obtain ⟨-, hb, -, hrest, -⟩ := nodup_cons h
    exact List.nodup_cons.mpr ⟨fun hmem => hb (roots_subset_nodes rest hmem), ih hrest⟩

/-! ## Pointers -/

section Pointers

/-- The list that `next` leads through from `p` to the null pointer. -/
def Seg (next : α → α) (null : α) : α → List α → Prop
  | p, [] => p = null
  | p, a :: l => p = a ∧ a ≠ null ∧ Seg next null (next a) l

/-- The forest that `child` and `next` span from `p`. -/
def Spans (child next : α → α) (null : α) : α → Forest α → Prop
  | p, nil => p = null
  | p, cons a kids rest =>
    p = a ∧ a ≠ null ∧ Spans child next null (child a) kids ∧ Spans child next null (next a) rest

variable {child next child' next' : α → α} {null p x : α} {F : Forest α}

theorem Spans.congr (hcongr : ∀ a ∈ F.nodes, child' a = child a ∧ next' a = next a)
    (h : Spans child next null p F) : Spans child' next' null p F := by
  induction F generalizing p with
  | nil => exact h
  | cons a kids rest ihk ihr =>
    obtain ⟨hp, hnull, hkids, hrest⟩ := h
    obtain ⟨hchild, hnext⟩ := hcongr a List.mem_cons_self
    refine ⟨hp, hnull, ?_, ?_⟩
    · rw [hchild]
      exact ihk (fun b hb => hcongr b (List.mem_cons_of_mem _ (List.mem_append_left _ hb))) hkids
    · rw [hnext]
      exact ihr (fun b hb => hcongr b (List.mem_cons_of_mem _ (List.mem_append_right _ hb))) hrest

theorem Spans.ne_null (h : Spans child next null p F) (hx : x ∈ F.nodes) : x ≠ null := by
  induction F generalizing p with
  | nil => cases hx
  | cons a kids rest ihk ihr =>
    obtain ⟨-, hnull, hkids, hrest⟩ := h
    rcases List.mem_cons.mp hx with rfl | hmem
    · exact hnull
    · rcases List.mem_append.mp hmem with hk | hr
      · exact ihk hkids hk
      · exact ihr hrest hr

/-- The nodes at the top are the list that `next` leads through. -/
theorem Spans.seg (h : Spans child next null p F) : Seg next null p F.roots := by
  induction F generalizing p with
  | nil => exact h
  | cons a kids rest _ ih => exact ⟨h.1, h.2.1, ih h.2.2.2⟩

theorem Seg.next_of_split {l pre post : List α} {y : α} (h : Seg next null p l)
    (hl : l = pre ++ x :: y :: post) : next x = y := by
  induction pre generalizing p l with
  | nil =>
    rw [hl] at h
    exact h.2.2.1
  | cons b pre ih =>
    rw [hl] at h
    exact ih h.2.2 rfl

theorem Seg.next_last {l pre : List α} (h : Seg next null p l) (hl : l = pre ++ [x]) :
    next x = null := by
  induction pre generalizing p l with
  | nil =>
    rw [hl] at h
    exact h.2.2
  | cons b pre ih =>
    rw [hl] at h
    exact ih h.2.2 rfl

/-- Behind an element comes the null pointer or the next element. -/
theorem Seg.next_cases {l : List α} (h : Seg next null p l) (hx : x ∈ l) :
    next x = null ∨ ∃ pre post, l = pre ++ x :: next x :: post := by
  obtain ⟨pre, post, rfl⟩ := List.append_of_mem hx
  cases post with
  | nil => exact .inl (h.next_last rfl)
  | cons y post => exact .inr ⟨pre, post, by rw [h.next_of_split rfl]⟩

theorem Seg.head {l : List α} (h : Seg next null p l) : p = null ∨ ∃ l', l = p :: l' := by
  cases l with
  | nil => exact .inl h
  | cons a l => exact .inr ⟨l, by rw [h.1]⟩

/-- From one pointer `next` leads through one list. -/
theorem Seg.unique {l l' : List α} (h : Seg next null p l) (h' : Seg next null p l') : l = l' := by
  induction l generalizing p l' with
  | nil =>
    cases l' with
    | nil => rfl
    | cons b l' => exact absurd (h'.1.symm.trans h) h'.2.1
  | cons a l ih =>
    cases l' with
    | nil => exact absurd (h.1.symm.trans h') h.2.1
    | cons b l' =>
      obtain ⟨rfl, -, hrest⟩ := h
      obtain ⟨rfl, -, hrest'⟩ := h'
      rw [ih hrest hrest']

/-- No pointer inside a forest leads to a node outside it. -/
theorem Spans.pointers_ne (h : Spans child next null p F) (hx : x ∉ F.nodes) (hnull : x ≠ null) :
    p ≠ x ∧ ∀ b ∈ F.nodes, child b ≠ x ∧ next b ≠ x := by
  induction F generalizing p with
  | nil =>
    refine ⟨fun heq => hnull ?_, nofun⟩
    exact heq.symm.trans h
  | cons a kids rest ihk ihr =>
    obtain ⟨rfl, -, hkids, hrest⟩ := h
    simp only [nodes, List.mem_cons, List.mem_append, not_or] at hx
    obtain ⟨hchild, hink⟩ := ihk hkids hx.2.1
    obtain ⟨hnext, hinr⟩ := ihr hrest hx.2.2
    refine ⟨Ne.symm hx.1, fun b hb => ?_⟩
    rcases List.mem_cons.mp hb with rfl | hmem
    · exact ⟨hchild, hnext⟩
    · rcases List.mem_append.mp hmem with hk | hr
      · exact hink b hk
      · exact hinr b hr

end Pointers

variable [DecidableEq α]

/-- The children of a node. -/
def kidsOf (x : α) : Forest α → Forest α
  | nil => nil
  | cons a kids rest =>
    if a = x then kids else if x ∈ kids.nodes then kidsOf x kids else kidsOf x rest

/-- The siblings behind a top node. -/
def after (x : α) : Forest α → Forest α
  | nil => nil
  | cons a _ rest => if a = x then rest else after x rest

/-- The list of the children of a node. -/
def childrenOf (x : α) (F : Forest α) : List α := (kidsOf x F).roots

/-- Give `D` one more child, behind the others. -/
def addChild (D a : α) (k : Forest α) : Forest α → Forest α
  | nil => nil
  | cons b kids rest =>
    if b = D then cons b (kids.snoc a k) rest
    else cons b (addChild D a k kids) (addChild D a k rest)

/-- Take out a node with everything below it. -/
def remove (x : α) : Forest α → Forest α
  | nil => nil
  | cons b kids rest => if b = x then rest else cons b (remove x kids) (remove x rest)

/-! ## Children -/

section Children

variable {x y a D : α} {F k : Forest α}

theorem kidsOf_of_not_mem (h : x ∉ F.nodes) : kidsOf x F = nil := by
  induction F with
  | nil => rfl
  | cons b kids rest _ ih =>
    simp only [nodes, List.mem_cons, List.mem_append, not_or] at h
    rw [kidsOf, if_neg (Ne.symm h.1), if_neg h.2.1, ih h.2.2]

theorem childrenOf_of_not_mem (h : x ∉ F.nodes) : childrenOf x F = [] := by
  rw [childrenOf, kidsOf_of_not_mem h]
  rfl

/-- Only a node of the forest has children in it. -/
theorem parent_mem (h : a ∈ childrenOf x F) : x ∈ F.nodes := by
  by_contra hx
  rw [childrenOf_of_not_mem hx] at h
  cases h

theorem nodes_kidsOf_subset : ∀ F : Forest α, (kidsOf x F).nodes ⊆ F.nodes := by
  intro F
  induction F with
  | nil => exact List.Subset.refl _
  | cons b kids rest ihk ihr =>
    have hkids : kids.nodes ⊆ (cons b kids rest).nodes :=
      List.subset_cons_of_subset _ (List.subset_append_left _ _)
    have hrest : rest.nodes ⊆ (cons b kids rest).nodes :=
      List.subset_cons_of_subset _ (List.subset_append_right _ _)
    rw [kidsOf]
    split
    · exact hkids
    · split
      · exact List.Subset.trans ihk hkids
      · exact List.Subset.trans ihr hrest

theorem childrenOf_subset (F : Forest α) : childrenOf x F ⊆ F.nodes :=
  List.Subset.trans (roots_subset_nodes _) (nodes_kidsOf_subset F)

/-- Whose child a node is, read off the first branch that has it. -/
theorem childrenOf_cons {b : α} {kids rest : Forest α} :
    childrenOf x (cons b kids rest) =
      if b = x then kids.roots
      else if x ∈ kids.nodes then childrenOf x kids else childrenOf x rest := by
  rw [childrenOf, kidsOf]
  split
  · rfl
  · split <;> rfl

theorem nodup_kidsOf (h : F.nodes.Nodup) : (kidsOf x F).nodes.Nodup := by
  induction F with
  | nil => exact h
  | cons b kids rest ihk ihr =>
    obtain ⟨-, -, hkids, hrest, -⟩ := nodup_cons h
    rw [kidsOf]
    split
    · exact hkids
    · split
      · exact ihk hkids
      · exact ihr hrest

theorem nodup_childrenOf (h : F.nodes.Nodup) : (childrenOf x F).Nodup :=
  nodup_roots (nodup_kidsOf h)

/-- A node is not below itself. -/
theorem not_mem_kidsOf (h : F.nodes.Nodup) : x ∉ (kidsOf x F).nodes := by
  induction F with
  | nil => exact List.not_mem_nil
  | cons b kids rest ihk ihr =>
    obtain ⟨hb, -, hkids, hrest, -⟩ := nodup_cons h
    rw [kidsOf]
    split
    case isTrue heq => exact heq ▸ hb
    case isFalse =>
      split
      · exact ihk hkids
      · exact ihr hrest

/-- A node at the top is nobody's child. -/
theorem root_not_mem_childrenOf (h : F.nodes.Nodup) (hx : x ∈ F.roots) : x ∉ childrenOf y F := by
  induction F with
  | nil => cases hx
  | cons b kids rest _ ihr =>
    obtain ⟨hbk, hbr, -, hrest, hdisj⟩ := nodup_cons h
    rw [childrenOf_cons]
    rcases List.mem_cons.mp hx with rfl | hx'
    · split
      · exact fun hmem => hbk (roots_subset_nodes kids hmem)
      · split
        · exact fun hmem => hbk (childrenOf_subset kids hmem)
        · exact fun hmem => hbr (childrenOf_subset rest hmem)
    · have hxr := roots_subset_nodes rest hx'
      split
      · exact fun hmem => hdisj x (roots_subset_nodes kids hmem) hxr
      · split
        · exact fun hmem => hdisj x (childrenOf_subset kids hmem) hxr
        · exact ihr hrest hx'

/-- A node is the child of at most one other. -/
theorem parent_unique (h : F.nodes.Nodup) (hx : a ∈ childrenOf x F) (hy : a ∈ childrenOf y F) :
    x = y := by
  induction F with
  | nil => cases hx
  | cons b kids rest ihk ihr =>
    obtain ⟨hbk, hbr, hkids, hrest, hdisj⟩ := nodup_cons h
    rw [childrenOf_cons] at hx hy
    have hkid : ∀ {z : α}, a ∈ childrenOf z kids → a ∉ kids.roots := fun hz hroot =>
      root_not_mem_childrenOf hkids hroot hz
    have hapart : ∀ {z : α}, a ∈ kids.nodes → a ∉ childrenOf z rest := fun hz hmem =>
      hdisj a hz (childrenOf_subset rest hmem)
    split at hx
    case isTrue hbx =>
      split at hy
      case isTrue hby => exact hbx.symm.trans hby
      case isFalse =>
        split at hy
        · exact absurd hx (hkid hy)
        · exact absurd hy (hapart (roots_subset_nodes kids hx))
    case isFalse =>
      split at hx
      · split at hy
        · exact absurd hy (hkid hx)
        · split at hy
          · exact ihk hkids hx hy
          · exact absurd hy (hapart (childrenOf_subset kids hx))
      · split at hy
        · exact absurd hx (hapart (roots_subset_nodes kids hy))
        · split at hy
          · exact absurd hx (hapart (childrenOf_subset kids hy))
          · exact ihr hrest hx hy

/-- Every node is at the top or somebody's child. -/
theorem exists_parent (h : F.nodes.Nodup) (hx : x ∈ F.nodes) :
    x ∈ F.roots ∨ ∃ y ∈ F.nodes, x ∈ childrenOf y F := by
  induction F with
  | nil => cases hx
  | cons b kids rest ihk ihr =>
    obtain ⟨hbk, hbr, hkids, hrest, hdisj⟩ := nodup_cons h
    rcases List.mem_cons.mp hx with rfl | hmem
    · exact .inl List.mem_cons_self
    · rcases List.mem_append.mp hmem with hk | hr
      · rcases ihk hkids hk with hroot | ⟨y, hy, hchild⟩
        · refine .inr ⟨b, List.mem_cons_self, ?_⟩
          rw [childrenOf_cons, if_pos rfl]
          exact hroot
        · refine .inr ⟨y, List.mem_cons_of_mem _ (List.mem_append_left _ hy), ?_⟩
          have hby : b ≠ y := fun heq => hbk (heq ▸ hy)
          rw [childrenOf_cons, if_neg hby, if_pos hy]
          exact hchild
      · rcases ihr hrest hr with hroot | ⟨y, hy, hchild⟩
        · exact .inl (List.mem_cons_of_mem _ hroot)
        · refine .inr ⟨y, List.mem_cons_of_mem _ (List.mem_append_right _ hy), ?_⟩
          have hby : b ≠ y := fun heq => hbr (heq ▸ hy)
          have hky : y ∉ kids.nodes := fun hk => hdisj y hk hy
          rw [childrenOf_cons, if_neg hby, if_neg hky]
          exact hchild

end Children

/-! ## Adding and removing -/

section Change

variable {x a D : α} {F k : Forest α}

@[simp] theorem roots_addChild (D a : α) (k F : Forest α) : (addChild D a k F).roots = F.roots := by
  induction F with
  | nil => rfl
  | cons b kids rest _ ih =>
    rw [addChild]
    split
    · rfl
    · exact congrArg (b :: ·) ih

theorem addChild_of_not_mem (h : D ∉ F.nodes) : addChild D a k F = F := by
  induction F with
  | nil => rfl
  | cons b kids rest ihk ihr =>
    simp only [nodes, List.mem_cons, List.mem_append, not_or] at h
    rw [addChild, if_neg (Ne.symm h.1), ihk h.2.1, ihr h.2.2]

/-- The new nodes come on top of the old ones. -/
theorem nodes_addChild (h : F.nodes.Nodup) (hD : D ∈ F.nodes) :
    (addChild D a k F).nodes.Perm (F.nodes ++ a :: k.nodes) := by
  induction F with
  | nil => cases hD
  | cons b kids rest ihk ihr =>
    obtain ⟨hbk, hbr, hkids, hrest, hdisj⟩ := nodup_cons h
    have hswap : ∀ l : List α, (kids.nodes ++ l ++ rest.nodes).Perm (kids.nodes ++ rest.nodes ++ l) := by
      intro l
      rw [List.append_assoc, List.append_assoc]
      exact List.perm_append_comm.append_left kids.nodes
    rw [addChild]
    by_cases hbD : b = D
    · rw [if_pos hbD, nodes, nodes, nodes_snoc]
      exact (hswap _).cons b
    · rw [if_neg hbD, nodes, nodes, List.cons_append]
      refine List.Perm.cons b ?_
      rcases List.mem_append.mp ((List.mem_cons.mp hD).resolve_left (Ne.symm hbD)) with hk | hr
      · rw [addChild_of_not_mem (hdisj D hk)]
        exact ((ihk hkids hk).append_right rest.nodes).trans (hswap _)
      · have hDk : D ∉ kids.nodes := fun hk => hdisj D hk hr
        rw [addChild_of_not_mem hDk, List.append_assoc]
        exact (ihr hrest hr).append_left kids.nodes

theorem mem_nodes_addChild (h : F.nodes.Nodup) (hD : D ∈ F.nodes) :
    x ∈ (addChild D a k F).nodes ↔ x ∈ F.nodes ∨ x = a ∨ x ∈ k.nodes := by
  rw [(nodes_addChild h hD).mem_iff, List.mem_append, List.mem_cons]

theorem childrenOf_snoc (ha : a ≠ x) (hk : x ∉ k.nodes) :
    childrenOf x (F.snoc a k) = childrenOf x F := by
  induction F with
  | nil =>
    rw [snoc, childrenOf_cons, if_neg ha, if_neg hk]
  | cons b kids rest _ ih => rw [snoc, childrenOf_cons, childrenOf_cons, ih]

/-- Among the old nodes only `D` has a new child. -/
theorem childrenOf_addChild (h : F.nodes.Nodup) (ha : a ∉ F.nodes)
    (hk : ∀ y ∈ k.nodes, y ∉ F.nodes) (hx : x ∈ F.nodes) :
    childrenOf x (addChild D a k F) =
      if x = D then childrenOf x F ++ [a] else childrenOf x F := by
  induction F with
  | nil => cases hx
  | cons b kids rest ihk ihr =>
    obtain ⟨hbk, hbr, hkids, hrest, hdisj⟩ := nodup_cons h
    simp only [nodes, List.mem_cons, List.mem_append, not_or] at ha hx
    have hk' : ∀ y ∈ k.nodes, y ∉ kids.nodes ∧ y ∉ rest.nodes := by
      intro y hy
      have hnot := hk y hy
      simp only [nodes, List.mem_cons, List.mem_append, not_or] at hnot
      exact hnot.2
    have hxa : a ≠ x := by
      rintro rfl
      exact hx.elim ha.1 (fun hmem => hmem.elim ha.2.1 ha.2.2)
    have hxk : x ∉ k.nodes := fun hmem =>
      hx.elim (fun heq => hk x hmem (heq ▸ List.mem_cons_self))
        (fun hmem' => hmem'.elim (hk' x hmem).1 (hk' x hmem).2)
    rw [addChild]
    by_cases hbD : b = D
    · subst hbD
      rw [if_pos rfl, childrenOf_cons, childrenOf_cons, roots_snoc]
      by_cases hbx : b = x
      · rw [if_pos hbx, if_pos hbx, if_pos hbx.symm]
      · rw [if_neg hbx, if_neg hbx, if_neg (Ne.symm hbx), nodes_snoc, childrenOf_snoc hxa hxk]
        have hmem : x ∈ kids.nodes ++ a :: k.nodes ↔ x ∈ kids.nodes := by
          rw [List.mem_append, List.mem_cons]
          exact or_iff_left (not_or.mpr ⟨Ne.symm hxa, hxk⟩)
        simp only [hmem]
    · rw [if_neg hbD, childrenOf_cons, childrenOf_cons]
      by_cases hbx : b = x
      · rw [if_pos hbx, if_pos hbx, if_neg (hbx ▸ hbD), roots_addChild]
      · rw [if_neg hbx, if_neg hbx]
        have hxkids : x ∈ (addChild D a k kids).nodes ↔ x ∈ kids.nodes := by
          by_cases hDk : D ∈ kids.nodes
          · rw [mem_nodes_addChild hkids hDk]
            exact or_iff_left (not_or.mpr ⟨Ne.symm hxa, hxk⟩)
          · rw [addChild_of_not_mem hDk]
        simp only [hxkids]
        split
        case isTrue hmem => exact ihk hkids ha.2.1 (fun y hy => (hk' y hy).1) hmem
        case isFalse hmem =>
          exact ihr hrest ha.2.2 (fun y hy => (hk' y hy).2)
            ((hx.resolve_left (Ne.symm hbx)).resolve_left hmem)

/-- The new nodes have the children they came with. -/
theorem childrenOf_addChild_new (h : F.nodes.Nodup) (hD : D ∈ F.nodes) (hx : x ∉ F.nodes) :
    childrenOf x (addChild D a k F) = childrenOf x (cons a k nil) := by
  have hsnoc : ∀ G : Forest α, x ∉ G.nodes → childrenOf x (G.snoc a k) = childrenOf x (cons a k nil) := by
    intro G
    induction G with
    | nil => exact fun _ => rfl
    | cons b kids rest _ ih =>
      intro hnot
      simp only [nodes, List.mem_cons, List.mem_append, not_or] at hnot
      rw [snoc, childrenOf_cons, if_neg (Ne.symm hnot.1), if_neg hnot.2.1, ih hnot.2.2]
  have hout : ∀ G : Forest α, x ∉ G.nodes → x ∉ (cons a k nil).nodes →
      childrenOf x (cons a k nil) = [] := fun _ _ hnot => childrenOf_of_not_mem hnot
  induction F with
  | nil => cases hD
  | cons b kids rest ihk ihr =>
    obtain ⟨hbk, hbr, hkids, hrest, hdisj⟩ := nodup_cons h
    simp only [nodes, List.mem_cons, List.mem_append, not_or] at hx hD
    rw [addChild]
    by_cases hbD : b = D
    · rw [if_pos hbD, childrenOf_cons, if_neg (Ne.symm hx.1), nodes_snoc, hsnoc kids hx.2.1,
        childrenOf_of_not_mem hx.2.2]
      split
      · rfl
      case isFalse hmem =>
        refine (hout nil List.not_mem_nil fun hnew => hmem ?_).symm
        rw [nodes, nodes, List.append_nil] at hnew
        exact List.mem_append_right _ hnew
    · rw [if_neg hbD, childrenOf_cons, if_neg (Ne.symm hx.1)]
      rcases hD.resolve_left (Ne.symm hbD) with hk | hr
      · rw [addChild_of_not_mem (hdisj D hk), childrenOf_of_not_mem hx.2.2, ihk hkids hk hx.2.1]
        split
        · rfl
        case isFalse hmem =>
          refine (hout nil List.not_mem_nil fun hnew => hmem ?_).symm
          rw [nodes, nodes, List.append_nil, List.mem_cons] at hnew
          exact (mem_nodes_addChild hkids hk).mpr (.inr hnew)
      · have hDk : D ∉ kids.nodes := fun hk => hdisj D hk hr
        rw [addChild_of_not_mem hDk, if_neg hx.2.1, ihr hrest hr hx.2.2]

theorem remove_of_not_mem (h : x ∉ F.nodes) : remove x F = F := by
  induction F with
  | nil => rfl
  | cons b kids rest ihk ihr =>
    simp only [nodes, List.mem_cons, List.mem_append, not_or] at h
    rw [remove, if_neg (Ne.symm h.1), ihk h.2.1, ihr h.2.2]

theorem nodes_remove_sublist (x : α) (F : Forest α) : (remove x F).nodes.Sublist F.nodes := by
  induction F with
  | nil => exact .refl _
  | cons b kids rest ihk ihr =>
    rw [remove]
    split
    · exact ((List.sublist_append_right kids.nodes _).trans (List.sublist_cons_self b _))
    · exact (ihk.append ihr).cons_cons b

theorem nodup_remove (h : F.nodes.Nodup) : (remove x F).nodes.Nodup :=
  h.sublist (nodes_remove_sublist x F)

/-- What is taken out is the node and everything below it. -/
theorem nodes_remove (h : F.nodes.Nodup) (hx : x ∈ F.nodes) :
    F.nodes.Perm ((remove x F).nodes ++ x :: (kidsOf x F).nodes) := by
  induction F with
  | nil => cases hx
  | cons b kids rest ihk ihr =>
    obtain ⟨hbk, hbr, hkids, hrest, hdisj⟩ := nodup_cons h
    rw [remove, kidsOf]
    by_cases hbx : b = x
    · subst hbx
      rw [if_pos rfl, if_pos rfl]
      exact (List.perm_append_comm.cons b).trans List.perm_middle.symm
    · rw [if_neg hbx, if_neg hbx, nodes, nodes, List.cons_append]
      refine List.Perm.cons b ?_
      rcases List.mem_append.mp ((List.mem_cons.mp hx).resolve_left (Ne.symm hbx)) with hk | hr
      · rw [if_pos hk, remove_of_not_mem (hdisj x hk)]
        have hstep := (ihk hkids hk).append_right rest.nodes
        refine hstep.trans ?_
        rw [List.append_assoc, List.append_assoc]
        exact List.perm_append_comm.append_left _
      · have hxk : x ∉ kids.nodes := fun hk => hdisj x hk hr
        rw [if_neg hxk, remove_of_not_mem hxk, List.append_assoc]
        exact (ihr hrest hr).append_left kids.nodes

theorem roots_remove (h : F.nodes.Nodup) : (remove x F).roots = F.roots.erase x := by
  induction F with
  | nil => rfl
  | cons b kids rest _ ih =>
    obtain ⟨-, -, -, hrest, -⟩ := nodup_cons h
    rw [remove, roots]
    by_cases hbx : b = x
    · rw [if_pos hbx, hbx, List.erase_cons_head]
    · rw [if_neg hbx, List.erase_cons_tail (by simpa using hbx), roots, ih hrest]

/-- Among the nodes that stay only the parent has lost a child. -/
theorem childrenOf_remove {y : α} (h : F.nodes.Nodup) (hy : y ∈ (remove x F).nodes) :
    childrenOf y (remove x F) = (childrenOf y F).erase x := by
  induction F with
  | nil => cases hy
  | cons b kids rest ihk ihr =>
    obtain ⟨hbk, hbr, hkids, hrest, hdisj⟩ := nodup_cons h
    rw [remove] at hy ⊢
    rw [childrenOf_cons]
    by_cases hbx : b = x
    · subst hbx
      rw [if_pos rfl] at hy ⊢
      have hby : b ≠ y := fun heq => hbr (heq ▸ hy)
      have hyk : y ∉ kids.nodes := fun hk => hdisj y hk hy
      rw [if_neg hby, if_neg hyk,
        List.erase_of_not_mem fun hmem => hbr (childrenOf_subset rest hmem)]
    · rw [if_neg hbx] at hy ⊢
      rw [childrenOf_cons]
      by_cases hby : b = y
      · rw [if_pos hby, if_pos hby, roots_remove hkids]
      · rw [if_neg hby, if_neg hby]
        rcases List.mem_append.mp ((List.mem_cons.mp hy).resolve_left (Ne.symm hby)) with hk | hr
        · rw [if_pos hk, if_pos ((nodes_remove_sublist x kids).subset hk), ihk hkids hk]
        · have hyr := (nodes_remove_sublist x rest).subset hr
          have hyk : y ∉ kids.nodes := fun hk => hdisj y hk hyr
          have hyk' : y ∉ (remove x kids).nodes := fun hk =>
            hyk ((nodes_remove_sublist x kids).subset hk)
          rw [if_neg hyk, if_neg hyk', ihr hrest hr]

/-- A child that stays keeps its parent. -/
theorem mem_childrenOf_remove {y P : α} (h : F.nodes.Nodup) (hy : y ∈ childrenOf P F)
    (hstay : y ∈ (remove x F).nodes) : y ∈ childrenOf P (remove x F) := by
  rcases exists_parent (nodup_remove h) hstay with hroot | ⟨z, hz, hchild⟩
  · rw [roots_remove h] at hroot
    exact absurd hy (root_not_mem_childrenOf h (List.mem_of_mem_erase hroot))
  · have hold := hchild
    rw [childrenOf_remove h hz] at hold
    obtain rfl := parent_unique h hy (List.mem_of_mem_erase hold)
    exact hchild

theorem childrenOf_remove_subset {y : α} (h : F.nodes.Nodup) :
    childrenOf y (remove x F) ⊆ childrenOf y F := by
  intro z hz
  rw [childrenOf_remove h (parent_mem hz)] at hz
  exact List.mem_of_mem_erase hz

end Change

/-! ## Storing pointers -/

section Storing

variable {child next child' next' : α → α} {null p x D : α} {F k : Forest α}

/-- What a node's `child` pointer spans. -/
theorem Spans.kidsOf (h : Spans child next null p F) (hx : x ∈ F.nodes) :
    Spans child next null (child x) (kidsOf x F) := by
  induction F generalizing p with
  | nil => cases hx
  | cons a kids rest ihk ihr =>
    obtain ⟨-, -, hkids, hrest⟩ := h
    rw [Forest.kidsOf]
    split
    case isTrue heq => exact heq ▸ hkids
    case isFalse hne =>
      split
      case isTrue hk => exact ihk hkids hk
      case isFalse hk =>
        have hmem := (List.mem_cons.mp hx).resolve_left (Ne.symm hne)
        exact ihr hrest ((List.mem_append.mp hmem).resolve_left hk)

/-- What the `next` pointer of a node at the top spans. -/
theorem Spans.after (h : Spans child next null p F) (hx : x ∈ F.roots) :
    Spans child next null (next x) (after x F) := by
  induction F generalizing p with
  | nil => cases hx
  | cons a kids rest _ ih =>
    obtain ⟨-, -, -, hrest⟩ := h
    rw [Forest.after]
    split
    case isTrue heq => exact heq ▸ hrest
    case isFalse hne => exact ih hrest ((List.mem_cons.mp hx).resolve_left (Ne.symm hne))

theorem after_sublist (x : α) (F : Forest α) : (after x F).nodes.Sublist F.nodes := by
  induction F with
  | nil => exact .refl _
  | cons a kids rest _ ih =>
    have hrest : rest.nodes.Sublist (cons a kids rest).nodes :=
      (List.sublist_append_right kids.nodes _).trans (List.sublist_cons_self a _)
    rw [after]
    split
    · exact hrest
    · exact ih.trans hrest

theorem not_mem_after (h : F.nodes.Nodup) : x ∉ (after x F).nodes := by
  induction F with
  | nil => exact List.not_mem_nil
  | cons a kids rest _ ih =>
    obtain ⟨-, hrest, -, hnodup, -⟩ := nodup_cons h
    rw [after]
    split
    case isTrue heq => exact heq ▸ hrest
    case isFalse => exact ih hnodup

omit [DecidableEq α] in
/-- Pointers span one forest. -/
theorem Spans.unique {G : Forest α} (hF : Spans child next null p F)
    (hG : Spans child next null p G) : F = G := by
  induction F generalizing p G with
  | nil =>
    cases G with
    | nil => rfl
    | cons b _ _ => exact absurd (hG.1.symm.trans hF) hG.2.1
  | cons a kids rest ihk ihr =>
    cases G with
    | nil => exact absurd (hF.1.symm.trans hG) hF.2.1
    | cons b kids' rest' =>
      obtain ⟨rfl, -, hkids, hrest⟩ := hF
      obtain ⟨rfl, -, hkids', hrest'⟩ := hG
      rw [ihk hkids hkids', ihr hrest hrest']

/-- The children of a node are the list from its `child` pointer on. -/
theorem Spans.seg_childrenOf (h : Spans child next null p F) (hx : x ∈ F.nodes) :
    Seg next null (child x) (childrenOf x F) := (h.kidsOf hx).seg

omit [DecidableEq α] in
/-- Storing a pointer to a new node behind the last one at the top. -/
theorem Spans.snoc {a last : α} {pre : List α} (h : Spans child next null p F)
    (hnodup : F.nodes.Nodup) (hroots : F.roots = pre ++ [last])
    (hnew : Spans child' next' null a (cons a k nil)) (hlast : next' last = a)
    (hkeep : ∀ b ∈ F.nodes, child' b = child b ∧ (b ≠ last → next' b = next b)) :
    Spans child' next' null p (F.snoc a k) := by
  induction F generalizing p pre with
  | nil => cases pre <;> cases hroots
  | cons b kids rest _ ih =>
    obtain ⟨hp, hnull, hkids, hrest⟩ := h
    obtain ⟨hbk, hbr, hnk, hnr, hdisj⟩ := nodup_cons hnodup
    obtain ⟨hchild, hnext⟩ := hkeep b List.mem_cons_self
    have hlastk : last ∉ kids.nodes := by
      intro hk
      have hmem : last ∈ (cons b kids rest).roots := by
        rw [hroots]
        exact List.mem_append_right _ List.mem_cons_self
      rcases List.mem_cons.mp hmem with heq | hr
      · exact hbk (heq ▸ hk)
      · exact hdisj last hk (roots_subset_nodes rest hr)
    refine ⟨hp, hnull, ?_, ?_⟩
    · rw [hchild]
      refine hkids.congr fun c hc => ?_
      obtain ⟨hc₁, hc₂⟩ := hkeep c (List.mem_cons_of_mem _ (List.mem_append_left _ hc))
      exact ⟨hc₁, hc₂ fun heq => hlastk (heq ▸ hc)⟩
    · cases pre with
      | nil =>
        -- `b` is the last node at the top.
        obtain ⟨rfl, hempty⟩ := List.cons.inj hroots
        cases rest with
        | nil =>
          rw [hlast]
          exact hnew
        | cons c _ _ => cases hempty
      | cons c pre =>
        obtain ⟨rfl, hroots'⟩ := List.cons.inj hroots
        have hbl : b ≠ last := by
          rintro rfl
          refine hbr (roots_subset_nodes rest ?_)
          rw [hroots']
          exact List.mem_append_right _ List.mem_cons_self
        rw [hnext hbl]
        exact ih hrest hnr hroots' fun d hd =>
          hkeep d (List.mem_cons_of_mem _ (List.mem_append_right _ hd))

/-- Storing a pointer to a new node behind the last child of `D`. -/
theorem Spans.addChild {a last : α} {pre : List α} (h : Spans child next null p F)
    (hnodup : F.nodes.Nodup) (hD : D ∈ F.nodes) (hchildren : childrenOf D F = pre ++ [last])
    (hnew : Spans child' next' null a (cons a k nil)) (hlast : next' last = a)
    (hkeep : ∀ b ∈ F.nodes, child' b = child b ∧ (b ≠ last → next' b = next b)) :
    Spans child' next' null p (addChild D a k F) := by
  have hmem : last ∈ childrenOf D F := by
    rw [hchildren]
    exact List.mem_append_right _ List.mem_cons_self
  induction F generalizing p with
  | nil => cases hD
  | cons b kids rest ihk ihr =>
    have hroot : b ≠ last := by
      rintro rfl
      exact root_not_mem_childrenOf hnodup List.mem_cons_self hmem
    obtain ⟨hp, hnull, hkids, hrest⟩ := h
    obtain ⟨hbk, hbr, hnk, hnr, hdisj⟩ := nodup_cons hnodup
    have hkeepk : ∀ c ∈ kids.nodes, child' c = child c ∧ (c ≠ last → next' c = next c) :=
      fun c hc => hkeep c (List.mem_cons_of_mem _ (List.mem_append_left _ hc))
    have hkeepr : ∀ c ∈ rest.nodes, child' c = child c ∧ (c ≠ last → next' c = next c) :=
      fun c hc => hkeep c (List.mem_cons_of_mem _ (List.mem_append_right _ hc))
    obtain ⟨hchild, hnext⟩ := hkeep b List.mem_cons_self
    have hrestOf : last ∈ kids.nodes → Spans child' next' null (next b) rest := fun hk =>
      hrest.congr fun c hc =>
        ⟨(hkeepr c hc).1, (hkeepr c hc).2 fun heq => hdisj last hk (heq ▸ hc)⟩
    have hkidsOf : last ∈ rest.nodes → Spans child' next' null (child b) kids := fun hr =>
      hkids.congr fun c hc =>
        ⟨(hkeepk c hc).1, (hkeepk c hc).2 fun heq => hdisj c hc (heq ▸ hr)⟩
    rw [childrenOf_cons] at hchildren hmem
    rw [Forest.addChild]
    by_cases hbD : b = D
    · rw [if_pos hbD] at hchildren hmem ⊢
      have hk := roots_subset_nodes kids hmem
      refine ⟨hp, hnull, ?_, ?_⟩
      · rw [hchild]
        exact hkids.snoc hnk hchildren hnew hlast hkeepk
      · rw [hnext hroot]
        exact hrestOf hk
    · rw [if_neg hbD] at hchildren hmem ⊢
      rcases List.mem_append.mp ((List.mem_cons.mp hD).resolve_left (Ne.symm hbD)) with hDk | hDr
      · rw [if_pos hDk] at hchildren hmem
        have hk := childrenOf_subset kids hmem
        refine ⟨hp, hnull, ?_, ?_⟩
        · rw [hchild]
          exact ihk hkids hnk hDk hchildren hkeepk hmem
        · rw [hnext hroot, addChild_of_not_mem (hdisj D hDk)]
          exact hrestOf hk
      · have hDk : D ∉ kids.nodes := fun hk => hdisj D hk hDr
        rw [if_neg hDk] at hchildren hmem
        have hr := childrenOf_subset rest hmem
        refine ⟨hp, hnull, ?_, ?_⟩
        · rw [hchild, addChild_of_not_mem hDk]
          exact hkidsOf hr
        · rw [hnext hroot]
          exact ihr hrest hnr hDr hchildren hkeepr hmem

/-- Where a pointer led to the node that is taken out, it now leads behind it. -/
def redirect (next : α → α) (x p : α) : α := if p = x then next x else p

theorem redirect_self : redirect next x x = next x := if_pos rfl

theorem redirect_ne (h : p ≠ x) : redirect next x p = p := if_neg h

/-- Leading every pointer to a node past it takes the node out. -/
theorem Spans.remove (h : Spans child next null p F) (hnodup : F.nodes.Nodup) (hnull : x ≠ null)
    (hlinks : ∀ b ∈ (remove x F).nodes,
      child' b = redirect next x (child b) ∧ next' b = redirect next x (next b)) :
    Spans child' next' null (redirect next x p) (remove x F) := by
  induction F generalizing p with
  | nil => exact (if_neg fun heq => hnull (heq.symm.trans h)).trans h
  | cons b kids rest ihk ihr =>
    obtain ⟨rfl, hpnull, hkids, hrest⟩ := h
    obtain ⟨hbk, hbr, hnk, hnr, hdisj⟩ := nodup_cons hnodup
    rw [Forest.remove] at hlinks ⊢
    by_cases hbx : p = x
    · subst hbx
      rw [if_pos rfl] at hlinks ⊢
      rw [redirect, if_pos rfl]
      refine hrest.congr fun c hc => ?_
      obtain ⟨hchild, hnext⟩ := (hrest.pointers_ne hbr hnull).2 c hc
      rw [(hlinks c hc).1, (hlinks c hc).2, redirect, redirect, if_neg hchild, if_neg hnext]
      exact ⟨rfl, rfl⟩
    · rw [if_neg hbx] at hlinks ⊢
      obtain ⟨hchild, hnext⟩ := hlinks p List.mem_cons_self
      refine ⟨if_neg hbx, hpnull, ?_, ?_⟩
      · rw [hchild]
        exact ihk hkids hnk fun c hc =>
          hlinks c (List.mem_cons_of_mem _ (List.mem_append_left _ hc))
      · rw [hnext]
        exact ihr hrest hnr fun c hc =>
          hlinks c (List.mem_cons_of_mem _ (List.mem_append_right _ hc))

/-- The one pointer to a node that is somebody's child: from its parent when it
is the first child, else from the child before it. -/
theorem Spans.pointer_to {b : α} (h : Spans child next null p F) (hnodup : F.nodes.Nodup)
    (hx : x ∈ childrenOf D F) (hb : b ∈ F.nodes) :
    (child b = x → b = D ∧ ∃ post, childrenOf D F = x :: post) ∧
      (next b = x → ∃ pre post, childrenOf D F = pre ++ b :: x :: post) := by
  have hnull : x ≠ null := h.ne_null (childrenOf_subset F hx)
  constructor
  · intro hchild
    have hseg := h.seg_childrenOf hb
    rw [hchild] at hseg
    obtain ⟨post, hpost⟩ := hseg.head.resolve_left hnull
    have hmem : x ∈ childrenOf b F := by
      rw [hpost]
      exact List.mem_cons_self
    obtain rfl := parent_unique hnodup hmem hx
    exact ⟨rfl, post, hpost⟩
  · intro hnext
    rcases exists_parent hnodup hb with hroot | ⟨y, hy, hchild⟩
    · obtain ⟨pre, post, hsplit⟩ := (h.seg.next_cases hroot).resolve_left
        fun heq => hnull (hnext.symm.trans heq)
      have hxroot : x ∈ F.roots := by
        rw [hsplit, hnext]
        exact List.mem_append_right _ (List.mem_cons_of_mem _ List.mem_cons_self)
      exact absurd hx (root_not_mem_childrenOf hnodup hxroot)
    · obtain ⟨pre, post, hsplit⟩ := ((h.seg_childrenOf hy).next_cases hchild).resolve_left
        fun heq => hnull (hnext.symm.trans heq)
      have hmem : x ∈ childrenOf y F := by
        rw [hsplit, hnext]
        exact List.mem_append_right _ (List.mem_cons_of_mem _ List.mem_cons_self)
      obtain rfl := parent_unique hnodup hmem hx
      exact ⟨pre, post, by rw [hsplit, hnext]⟩

end Storing

end Forest
