-- SUMMARY: The tree that the nodes of ramfs form, and what looking up names and paths means in it.
import Mathlib.Data.List.GetD
import Mathlib.Data.List.Perm.Subperm
import TalOS.Coresys.Ramfs
import TalOS.Lib.Forest

/-!
# File tree

`FileTree s T` says that the pointers of `s` span the forest `T` from the root, and
what every node in it is like. It holds after any sequence of the operations of
ramfs; that each directory starts with its links and that names differ are
predicates of their own, since not every sequence keeps them. On a file tree a
lookup is a search in a list of children, and a path is followed component by
component.
-/

namespace TalOS

def Ramfs.childPtr (s : Ramfs) (x : Nat) : Nat := (s.node x).children
def Ramfs.nextPtr (s : Ramfs) (x : Nat) : Nat := (s.node x).next

/-- The directory that `..` in `D` stands for. -/
def IsParent (T : Forest Nat) (D P : Nat) : Prop := D ∈ T.childrenOf P ∨ D = ROOT ∧ P = ROOT

def callbacksOf : FType → Callbacks
  | .directory => dirCallbacks
  | .regular => regCallbacks
  | _ => noCallbacks

/-- A node by itself: its type, the callbacks that go with it, and children only in a directory. -/
structure NodeOk (n : RamfsFileHeader) : Prop where
  type : n.type = .directory ∨ n.type = .regular ∨ n.type = .symlink
  callbacks : n.callbacks = callbacksOf n.type
  children : n.type ≠ .directory → n.children = 0

/-- A name that a file or a directory can have. -/
structure FileName (name : List UInt8) : Prop where
  length : name.length ≤ MAX_FNAME
  nul : 0 ∉ name
  slash : SLASH ∉ name
  dot : name ≠ DOT_NAME
  dotdot : name ≠ DOTDOT_NAME

/-- A link in a directory `D`: `.` to itself or `..` to its parent. -/
def LinkOk (s : Ramfs) (T : Forest Nat) (D x : Nat) : Prop :=
  (s.node x).name = DOT_NAME ∧ (s.node x).nodePtr = D ∨
    (s.node x).name = DOTDOT_NAME ∧ IsParent T D (s.node x).nodePtr

structure FileTree (s : Ramfs) (T : Forest Nat) : Prop where
  root : s.root = ROOT
  top : T.roots = [ROOT]
  spans : T.Spans s.childPtr s.nextPtr 0 ROOT
  once : T.nodes.Nodup
  below : ∀ x ∈ T.nodes, x < s.heap.currentPointer
  heap : s.heap.Ok
  rootDir : (s.node ROOT).type = .directory
  kind : ∀ x ∈ T.nodes, NodeOk (s.node x)
  links : ∀ D, ∀ x ∈ T.childrenOf D, (s.node x).type = .symlink → LinkOk s T D x
  names : ∀ D, ∀ x ∈ T.childrenOf D, (s.node x).type ≠ .symlink → FileName (s.node x).name

/-- Every directory starts with its links `.` and `..`. -/
def DotsFirst (s : Ramfs) (T : Forest Nat) : Prop :=
  ∀ D ∈ T.nodes, (s.node D).type = .directory →
    ∃ dot dotdot rest, T.childrenOf D = dot :: dotdot :: rest ∧
      (s.node dot).type = .symlink ∧ (s.node dot).name = DOT_NAME ∧
      (s.node dotdot).type = .symlink ∧ (s.node dotdot).name = DOTDOT_NAME

/-- The names in one directory differ. -/
def NamesDistinct (s : Ramfs) (T : Forest Nat) : Prop :=
  ∀ D, ((T.childrenOf D).map fun x => (s.node x).name).Nodup

/-! ## Nodes of a tree -/

section Nodes

variable {s : Ramfs} {T : Forest Nat} {x D : Nat}

theorem FileTree.root_mem (h : FileTree s T) : ROOT ∈ T.nodes :=
  T.roots_subset_nodes (h.top ▸ List.mem_cons_self)

theorem FileTree.ne_zero (h : FileTree s T) (hx : x ∈ T.nodes) : x ≠ 0 := h.spans.ne_null hx

theorem FileTree.lt_pointers (h : FileTree s T) (hx : x ∈ T.nodes) : x < POINTERS := by
  have hlt := h.below x hx
  have hbelow := h.heap.below
  have hhigh := h.heap.high
  unfold POINTERS
  omega

theorem FileTree.seg (h : FileTree s T) (hD : D ∈ T.nodes) :
    Forest.Seg s.nextPtr 0 (s.node D).children (T.childrenOf D) := h.spans.seg_childrenOf hD

theorem FileTree.children_eq_zero (h : FileTree s T) (hD : D ∈ T.nodes) :
    (s.node D).children = 0 ↔ T.childrenOf D = [] := by
  have hseg := h.seg hD
  constructor
  · intro hzero
    rw [hzero] at hseg
    cases hlist : T.childrenOf D with
    | nil => rfl
    | cons a l =>
      rw [hlist] at hseg
      exact absurd hseg.1.symm hseg.2.1
  · intro hnil
    rw [hnil] at hseg
    exact hseg

/-- Only a directory has children. -/
theorem FileTree.childrenOf_leaf (h : FileTree s T) (hx : x ∈ T.nodes)
    (htype : (s.node x).type ≠ .directory) : T.childrenOf x = [] :=
  (h.children_eq_zero hx).mp ((h.kind x hx).children htype)

theorem FileTree.parent_directory (h : FileTree s T) (hx : x ∈ T.childrenOf D) :
    (s.node D).type = .directory := by
  by_contra htype
  rw [h.childrenOf_leaf (Forest.parent_mem hx) htype] at hx
  cases hx

theorem FileTree.root_not_child (h : FileTree s T) : ROOT ∉ T.childrenOf D :=
  Forest.root_not_mem_childrenOf h.once (h.top ▸ List.mem_cons_self)

/-- Every node but the root is in the list of a directory. -/
theorem FileTree.exists_parent (h : FileTree s T) (hx : x ∈ T.nodes) (hroot : x ≠ ROOT) :
    ∃ D, x ∈ T.childrenOf D := by
  rcases Forest.exists_parent h.once hx with htop | ⟨D, -, hD⟩
  · rw [h.top, List.mem_singleton] at htop
    exact absurd htop hroot
  · exact ⟨D, hD⟩

theorem length_lt_pointers {l : List Nat} (hnodup : l.Nodup) (hpos : ∀ x ∈ l, x ≠ 0)
    (hlt : ∀ x ∈ l, x < POINTERS) : l.length < POINTERS := by
  have hzero : (0 :: l).Nodup := List.nodup_cons.mpr ⟨fun h => hpos 0 h rfl, hnodup⟩
  have hsub : 0 :: l ⊆ List.range POINTERS := by
    intro x hx
    rcases List.mem_cons.mp hx with rfl | hmem
    · exact List.mem_range.mpr (Nat.two_pow_pos 32)
    · exact List.mem_range.mpr (hlt x hmem)
  have hle := (List.subperm_of_subset hzero hsub).length_le
  rwa [List.length_range, List.length_cons] at hle

theorem FileTree.length_nodes (h : FileTree s T) : T.nodes.length < POINTERS :=
  length_lt_pointers h.once (fun _ hx => h.ne_zero hx) fun _ hx => h.lt_pointers hx

theorem FileTree.length_childrenOf (h : FileTree s T) : (T.childrenOf D).length < POINTERS :=
  length_lt_pointers (Forest.nodup_childrenOf h.once) (fun _ hx => h.ne_zero (Forest.childrenOf_subset T hx))
    fun _ hx => h.lt_pointers (Forest.childrenOf_subset T hx)

end Nodes

/-! ## Lookup in a directory -/

section Lookup

/-- The node's name passes for `name` with `strncmp`. -/
def named (s : Ramfs) (name : List UInt8) (x : Nat) : Bool :=
  strncmp (s.node x).nameBytes (stringBytes name) MAX_FNAME 0 = 0

theorem stringBytes_of_lt {word : List UInt8} {i : Nat} (h : i < word.length) :
    stringBytes word i = word[i] := by
  rw [stringBytes, List.getD_eq_getElem _ _ h]

theorem stringBytes_ne_zero {word : List UInt8} (hnul : 0 ∉ word) {i : Nat} :
    stringBytes word i ≠ 0 ↔ i < word.length := by
  constructor
  · intro h
    by_contra hge
    exact h (List.getD_eq_default _ _ (Nat.not_lt.mp hge))
  · intro h heq
    rw [stringBytes_of_lt h] at heq
    exact hnul (heq ▸ List.getElem_mem h)

theorem nameBytes_of_lt (n : RamfsFileHeader) {i : Nat} (h : i < MAX_FNAME) :
    n.nameBytes i = stringBytes n.name i := if_pos h

/-- A name shorter than its array passes for itself only. -/
theorem named_short {s : Ramfs} {name : List UInt8} {x : Nat}
    (hshort : (s.node x).name.length < MAX_FNAME) (hnul : 0 ∉ (s.node x).name)
    (hnul' : 0 ∉ name) : named s name x = true ↔ name = (s.node x).name := by
  have hlt {i : Nat} (h : i ≤ (s.node x).name.length) :
      (s.node x).nameBytes i = stringBytes (s.node x).name i :=
    nameBytes_of_lt _ (Nat.lt_of_le_of_lt h hshort)
  have hend : stringBytes (s.node x).name (s.node x).name.length = 0 := by
    by_contra h
    exact Nat.lt_irrefl _ ((stringBytes_ne_zero hnul).mp h)
  rw [named, decide_eq_true_iff, strncmp_eq_zero_iff]
  simp only [Nat.zero_add]
  constructor
  · rintro ⟨k, hk, hpre, heq, hstop⟩
    have hge : (s.node x).name.length ≤ k := by
      by_contra hlt'
      have hkn : k < (s.node x).name.length := Nat.not_le.mp hlt'
      have hzero := hstop (Nat.lt_trans hkn hshort)
      rw [hlt (Nat.le_of_lt hkn)] at hzero
      exact (stringBytes_ne_zero hnul).mpr hkn hzero
    have hle : k ≤ (s.node x).name.length := by
      by_contra hgt
      have hzero := (hpre _ (Nat.not_le.mp hgt)).1
      rw [hlt (Nat.le_refl _)] at hzero
      exact hzero hend
    obtain rfl := Nat.le_antisymm hle hge
    have hlength : name.length = (s.node x).name.length := by
      refine Nat.le_antisymm (Nat.not_lt.mp fun hlong => ?_) (Nat.not_lt.mp fun hshort' => ?_)
      · rw [hlt (Nat.le_refl _), hend] at heq
        exact (stringBytes_ne_zero hnul').mpr hlong heq.symm
      · obtain ⟨hne, hsame⟩ := hpre _ hshort'
        rw [hsame] at hne
        exact Nat.lt_irrefl _ ((stringBytes_ne_zero hnul').mp hne)
    refine List.ext_getElem hlength fun i hi hi' => ?_
    have hsame := (hpre i hi').2
    rw [hlt (Nat.le_of_lt hi'), stringBytes_of_lt hi', stringBytes_of_lt hi] at hsame
    exact hsame.symm
  · rintro rfl
    refine ⟨_, Nat.le_of_lt hshort, fun j hj => ?_, hlt (Nat.le_refl _), fun _ => ?_⟩
    · rw [hlt (Nat.le_of_lt hj)]
      exact ⟨(stringBytes_ne_zero hnul).mpr hj, rfl⟩
    · rw [hlt (Nat.le_refl _), hend]

/-- A name that fills its array passes for every name that starts with it and goes on with the byte
behind the array, the lowest of the inode number. -/
theorem named_long {s : Ramfs} {name : List UInt8} {x : Nat}
    (hlong : (s.node x).name.length = MAX_FNAME) (hnul : 0 ∉ (s.node x).name) :
    named s name x = true ↔
      name.take MAX_FNAME = (s.node x).name ∧ (s.node x).ino.toUInt8 = stringBytes name MAX_FNAME := by
  have hpos {i : Nat} (h : i < MAX_FNAME) : stringBytes (s.node x).name i ≠ 0 :=
    (stringBytes_ne_zero hnul).mpr (hlong ▸ h)
  have hbehind : (s.node x).nameBytes MAX_FNAME = (s.node x).ino.toUInt8 := by
    rw [RamfsFileHeader.nameBytes, if_neg (Nat.lt_irrefl _), Nat.sub_self, Nat.mul_zero, Nat.pow_zero,
      Nat.div_one]
  rw [named, decide_eq_true_iff, strncmp_eq_zero_iff]
  simp only [Nat.zero_add]
  constructor
  · rintro ⟨k, hk, hpre, heq, hstop⟩
    have hfull : k = MAX_FNAME := by
      by_contra hne
      have hlt := Nat.lt_of_le_of_ne hk hne
      have hzero := hstop hlt
      rw [nameBytes_of_lt _ hlt] at hzero
      exact hpos hlt hzero
    subst hfull
    rw [hbehind] at heq
    have hsame {i : Nat} (h : i < MAX_FNAME) :
        stringBytes (s.node x).name i = stringBytes name i := by
      rw [← nameBytes_of_lt _ h]
      exact (hpre i h).2
    have hlength : MAX_FNAME ≤ name.length := by
      by_contra hlt
      have hzero := hpos (Nat.not_le.mp hlt)
      rw [hsame (Nat.not_le.mp hlt), stringBytes, List.getD_eq_default _ _ (Nat.le_refl _)] at hzero
      exact hzero rfl
    refine ⟨List.ext_getElem ?_ fun i hi hi' => ?_, heq⟩
    · rw [List.length_take_of_le hlength, hlong]
    · have hbyte := hsame (hlong ▸ hi')
      rw [stringBytes_of_lt hi', stringBytes_of_lt (Nat.lt_of_lt_of_le (hlong ▸ hi') hlength)] at hbyte
      rw [List.getElem_take]
      exact hbyte.symm
  · rintro ⟨htake, hbyte⟩
    have hlength : MAX_FNAME ≤ name.length := by
      have hlen := congrArg List.length htake
      rw [hlong, List.length_take] at hlen
      omega
    refine ⟨MAX_FNAME, Nat.le_refl _, fun j hj => ?_, hbehind.trans hbyte, fun h => ?_⟩
    · rw [nameBytes_of_lt _ hj]
      refine ⟨hpos hj, ?_⟩
      rw [← htake, stringBytes_of_lt (by rw [List.length_take_of_le hlength]; exact hj),
        stringBytes_of_lt (Nat.lt_of_lt_of_le hj hlength), List.getElem_take]
    · exact absurd h (Nat.lt_irrefl _)

/-- The first child of `D` with a name, 0 if there is none. -/
def childNamed (s : Ramfs) (T : Forest Nat) (D : Nat) (name : List UInt8) : Nat :=
  ((T.childrenOf D).find? (named s name)).getD 0

/-- Where a link leads. -/
def resolve (s : Ramfs) (x : Nat) : Nat :=
  if (s.node x).type = .symlink then (s.node x).nodePtr else x

/-- `fs_find` on a file tree. -/
def findIn (s : Ramfs) (T : Forest Nat) (x : Nat) (name : List UInt8) : Nat :=
  if (s.node (resolve s x)).type = .directory then childNamed s T (resolve s x) name else 0

variable {s : Ramfs} {T : Forest Nat} {x D : Nat} {name : List UInt8}

theorem resolve_dir (hdir : (s.node D).type = .directory) : resolve s D = D := by
  rw [resolve, hdir]
  exact if_neg FType.noConfusion

theorem findIn_dir (hdir : (s.node D).type = .directory) (name : List UInt8) :
    findIn s T D name = childNamed s T D name := by
  rw [findIn, resolve_dir hdir, if_pos hdir]

theorem findLoop_seg {l : List Nat} {p fuel : Nat} (hseg : Forest.Seg s.nextPtr 0 p l)
    (hne : l ≠ []) (hfuel : l.length ≤ fuel) :
    findLoop s name fuel p = some ((l.find? (named s name)).getD 0) := by
  induction l generalizing p fuel with
  | nil => exact absurd rfl hne
  | cons a l ih =>
    obtain ⟨rfl, hp, hrest⟩ := hseg
    cases fuel with
    | zero => cases hfuel
    | succ fuel =>
      rw [findLoop, Ramfs.deref, if_neg hp, Option.bind_some]
      by_cases hnamed : strncmp (s.node p).nameBytes (stringBytes name) MAX_FNAME 0 = 0
      · have hfound : named s name p = true := decide_eq_true hnamed
        rw [if_pos hnamed, List.find?_cons_of_pos hfound, Option.getD_some]
      · have hother : ¬ named s name p = true := fun h => hnamed (of_decide_eq_true h)
        rw [if_neg hnamed, List.find?_cons_of_neg hother]
        cases l with
        | nil => exact if_pos hrest
        | cons b l =>
          have hnext : (s.node p).next ≠ 0 := fun h => hrest.2.1 (hrest.1.symm.trans h)
          rw [if_neg hnext]
          exact ih hrest (List.cons_ne_nil _ _) (Nat.le_of_succ_le_succ hfuel)

theorem FileTree.ramfsFind (h : FileTree s T) (hD : D ∈ T.nodes)
    (htype : (s.node D).type = .directory) :
    ramfsFind s D name = some (childNamed s T D name) := by
  have hcallbacks := (h.kind D hD).callbacks
  rw [htype] at hcallbacks
  have hopen : ¬ ((s.node D).callbacks.readdirFn = false ∨ (s.node D).type ≠ .directory) := by
    rw [hcallbacks, htype]
    decide
  rw [TalOS.ramfsFind, if_neg (h.ne_zero hD)]
  dsimp only
  rw [if_neg hopen]
  by_cases hzero : (s.node D).children = 0
  · rw [if_pos hzero, childNamed, (h.children_eq_zero hD).mp hzero]
    rfl
  · rw [if_neg hzero]
    exact findLoop_seg (h.seg hD) (fun hnil => hzero ((h.children_eq_zero hD).mpr hnil))
      (Nat.le_of_lt h.length_childrenOf)

/-- A link leads to a directory of the tree. -/
theorem FileTree.link_target (h : FileTree s T) (hx : x ∈ T.nodes)
    (htype : (s.node x).type = .symlink) :
    (s.node x).nodePtr ∈ T.nodes ∧ (s.node (s.node x).nodePtr).type = .directory := by
  have hroot : x ≠ ROOT := by
    rintro rfl
    rw [h.rootDir] at htype
    cases htype
  obtain ⟨D, hD⟩ := h.exists_parent hx hroot
  rcases h.links D x hD htype with ⟨-, hself⟩ | ⟨-, hparent | ⟨-, hup⟩⟩
  · exact hself ▸ ⟨Forest.parent_mem hD, h.parent_directory hD⟩
  · exact ⟨Forest.parent_mem hparent, h.parent_directory hparent⟩
  · exact hup ▸ ⟨h.root_mem, h.rootDir⟩

theorem FileTree.resolve_mem (h : FileTree s T) (hx : x ∈ T.nodes) : resolve s x ∈ T.nodes := by
  unfold resolve
  split
  · next htype => exact (h.link_target hx htype).1
  · exact hx

theorem FileTree.resolve_type (h : FileTree s T) (hx : x ∈ T.nodes) :
    (s.node (resolve s x)).type ≠ .symlink := by
  unfold resolve
  split
  · next htype =>
    rw [(h.link_target hx htype).2]
    exact FType.noConfusion
  · next htype => exact htype

/-- Following links ends after one step. -/
theorem FileTree.nodeFromSimlink (h : FileTree s T) (hx : x ∈ T.nodes) (fuel : Nat) :
    vfsNodeFromSimlink s (fuel + 2) x = some (resolve s x) := by
  rw [vfsNodeFromSimlink, Ramfs.deref, if_neg (h.ne_zero hx), Option.bind_some, resolve]
  by_cases htype : (s.node x).type = .symlink
  · obtain ⟨htarget, hdir⟩ := h.link_target hx htype
    have hstop : (s.node (s.node x).nodePtr).type ≠ .symlink := by
      rw [hdir]
      exact FType.noConfusion
    rw [if_pos htype, if_pos htype, vfsNodeFromSimlink, Ramfs.deref, if_neg (h.ne_zero htarget),
      Option.bind_some, if_neg hstop]
  · rw [if_neg htype, if_neg htype]

theorem FileTree.fsFind (h : FileTree s T) (hx : x ∈ T.nodes) :
    fsFind s x name = some (findIn s T x name) := by
  have hmem := h.resolve_mem hx
  rw [TalOS.fsFind, show POINTERS = (2 ^ 32 - 2) + 2 by rfl, h.nodeFromSimlink hx, Option.bind_some,
    (h.kind _ hmem).callbacks, findIn]
  rcases (h.kind _ hmem).type with htype | htype | htype
  · rw [htype, if_pos rfl, h.ramfsFind hmem htype]
    exact if_pos rfl
  · rw [htype]
    rfl
  · exact absurd htype (h.resolve_type hx)

theorem childNamed_cases (s : Ramfs) (T : Forest Nat) (D : Nat) (name : List UInt8) :
    childNamed s T D name = 0 ∧ (∀ x ∈ T.childrenOf D, named s name x = false) ∨
      childNamed s T D name ∈ T.childrenOf D ∧ named s name (childNamed s T D name) = true := by
  unfold childNamed
  cases hfind : (T.childrenOf D).find? (named s name) with
  | none => exact .inl ⟨rfl, fun x hx => by simpa using List.find?_eq_none.mp hfind x hx⟩
  | some x => exact .inr ⟨List.mem_of_find?_eq_some hfind, List.find?_some hfind⟩

/-- What `fs_find` finds is in the list of a directory. -/
theorem findIn_ne_zero (h : findIn s T x name ≠ 0) :
    (s.node (resolve s x)).type = .directory ∧
      findIn s T x name = childNamed s T (resolve s x) name ∧
      findIn s T x name ∈ T.childrenOf (resolve s x) ∧ named s name (findIn s T x name) = true := by
  unfold findIn at h ⊢
  split
  · next htype =>
    rw [if_pos htype] at h
    exact ⟨htype, rfl, (childNamed_cases s T _ name).resolve_left fun hzero => h hzero.1⟩
  · next htype =>
    rw [if_neg htype] at h
    exact absurd rfl h

/-- A link is found under `.` and `..` only, and nothing else is. -/
theorem FileTree.link_iff (h : FileTree s T) (hx : x ∈ T.childrenOf D) (hnul : 0 ∉ name)
    (hnamed : named s name x = true) :
    (s.node x).type = .symlink ↔ name = DOT_NAME ∨ name = DOTDOT_NAME := by
  constructor
  · intro htype
    have hshort {word : List UInt8} (hword : (s.node x).name = word) (hlt : word.length < MAX_FNAME)
        (hzero : 0 ∉ word) : name = word := by
      rw [← hword] at hlt hzero ⊢
      exact (named_short hlt hzero hnul).mp hnamed
    rcases h.links D x hx htype with ⟨hname, -⟩ | ⟨hname, -⟩
    · exact .inl (hshort hname (by decide) (by decide))
    · exact .inr (hshort hname (by decide) (by decide))
  · intro hdots
    by_contra htype
    have hlegal := h.names D x hx htype
    have hlen : name.length < MAX_FNAME := by
      rcases hdots with rfl | rfl <;> decide
    have heq : name = (s.node x).name := by
      rcases Nat.lt_or_eq_of_le hlegal.length with hlt | hfull
      · exact (named_short hlt hlegal.nul hnul).mp hnamed
      · have htake := ((named_long hfull hlegal.nul).mp hnamed).1
        rwa [List.take_of_length_le (Nat.le_of_lt hlen)] at htake
    rcases hdots with hdot | hdotdot
    · exact hlegal.dot (heq.symm.trans hdot)
    · exact hlegal.dotdot (heq.symm.trans hdotdot)

end Lookup

/-! ## Following a path -/

section Path

/-- Follow components one by one; 0 as soon as one is not found. -/
def walk (s : Ramfs) (T : Forest Nat) : List (List UInt8) → Nat → Nat
  | [], x => x
  | name :: names, x => if findIn s T x name = 0 then 0 else walk s T names (findIn s T x name)

variable {s : Ramfs} {T : Forest Nat} {x y : Nat}

theorem findIn_mem {name : List UInt8} (hfind : findIn s T x name ≠ 0) :
    findIn s T x name ∈ T.nodes :=
  Forest.childrenOf_subset T (findIn_ne_zero hfind).2.2.1

theorem walk_mem {names : List (List UInt8)} (hx : x ∈ T.nodes)
    (hwalk : walk s T names x ≠ 0) : walk s T names x ∈ T.nodes := by
  induction names generalizing x with
  | nil => exact hx
  | cons name names ih =>
    rw [walk] at hwalk ⊢
    split at hwalk
    · exact absurd rfl hwalk
    · next hfind =>
      rw [if_neg hfind]
      exact ih (findIn_mem hfind) hwalk

theorem walk_append (names names' : List (List UInt8)) (hx : x ≠ 0) :
    walk s T (names ++ names') x =
      if walk s T names x = 0 then 0 else walk s T names' (walk s T names x) := by
  induction names generalizing x with
  | nil => exact (if_neg hx).symm
  | cons name names ih =>
    rw [List.cons_append, walk, walk]
    split
    · next hfind => exact (if_pos rfl).symm
    · next hfind => exact ih hfind

theorem walk_singleton (name : List UInt8) (x : Nat) : walk s T [name] x = findIn s T x name := by
  rw [walk]
  split
  · next hzero => exact hzero.symm
  · rfl

/-- The last step of a walk that arrives. -/
theorem walk_concat {names : List (List UInt8)} {name : List UInt8} (hx : x ≠ 0)
    (hwalk : walk s T (names ++ [name]) x ≠ 0) :
    walk s T names x ≠ 0 ∧ walk s T (names ++ [name]) x = findIn s T (walk s T names x) name := by
  rw [walk_append _ _ hx] at hwalk ⊢
  split at hwalk
  · exact absurd rfl hwalk
  · next hne =>
    rw [if_neg hne]
    exact ⟨hne, walk_singleton name _⟩

theorem FileTree.walkTokens (h : FileTree s T) {saved : Option CharBuf} {fuel : Nat} (hx : x ∈ T.nodes)
    (hsaved : ∀ str ∈ saved, str.terminated = true) (hfuel : bytesLeft saved < fuel) :
    walkTokens s fuel saved x = some (walk s T (compsLeft saved) x) := by
  refine tokens_induction (motive := fun fuel saved =>
    ∀ x ∈ T.nodes, TalOS.walkTokens s fuel saved x = some (walk s T (compsLeft saved) x)) ?_ ?_ hsaved hfuel x hx
  · intro fuel saved save hrun hnone x _
    rw [TalOS.walkTokens, hrun, Option.bind_some, hnone]
    rfl
  · intro fuel saved word save hrun hcomps ih x hx
    rw [TalOS.walkTokens, hrun, Option.bind_some, hcomps, walk]
    dsimp only
    rw [h.fsFind hx, Option.bind_some]
    split
    · rfl
    · next hfind => exact ih _ (findIn_mem hfind)

/-- A path too long for its array is not followed to its end. -/
theorem walkTokens_unterminated {bytes : List UInt8} {fuel : Nat}
    (hwalk : walkTokens s fuel (some ⟨bytes, false⟩) x = some y) : y = 0 := by
  induction fuel generalizing bytes x with
  | zero => cases hwalk
  | succ fuel ih =>
    rw [TalOS.walkTokens, strtokNext, strtokR] at hwalk
    dsimp only at hwalk
    cases hrest : (bytes.dropWhile (· == SLASH)).dropWhile (· != SLASH) with
    | nil =>
      rw [hrest] at hwalk
      cases hwalk
    | cons c rest =>
      rw [hrest] at hwalk
      dsimp only [Option.bind_some] at hwalk
      obtain ⟨next, -, hnext⟩ := Option.bind_eq_some_iff.mp hwalk
      split at hnext
      · exact (Option.some.inj hnext).symm
      · exact ih hnext

/-- `fs_get_node` for an absolute path. -/
theorem FileTree.fsGetNode (h : FileTree s T) {path : List UInt8} (cur : Nat)
    (hlen : path.length < MAX_PATH) (habs : path.head? = some SLASH) :
    fsGetNode s cur path = some (walk s T (comps path) ROOT) := by
  have hcopy : strncpy path MAX_PATH = ⟨path, true⟩ := by
    rw [strncpy, List.take_of_length_le (Nat.le_of_lt hlen), decide_eq_true hlen]
  rw [TalOS.fsGetNode, hcopy, if_pos habs, h.root]
  exact (if_neg (h.ne_zero h.root_mem)).trans (h.walkTokens h.root_mem (by simp) (Nat.lt_succ_self _))

/-- What `fs_get_node` finds from `NULL` it finds by an absolute path that fits its array. -/
theorem FileTree.fsGetNode_some (h : FileTree s T) {path : List UInt8}
    (hget : TalOS.fsGetNode s 0 path = some x) (hx : x ≠ 0) :
    path.length < MAX_PATH ∧ path.head? = some SLASH ∧ x = walk s T (comps path) ROOT ∧
      x ∈ T.nodes := by
  have habs : path.head? = some SLASH := by
    by_contra hrel
    rw [TalOS.fsGetNode, if_neg hrel] at hget
    exact hx (Option.some.inj hget).symm
  have hlen : path.length < MAX_PATH := by
    by_contra hlong
    rw [TalOS.fsGetNode, if_pos habs, strncpy, decide_eq_false hlong] at hget
    split at hget
    · exact hx (Option.some.inj hget).symm
    · exact hx (walkTokens_unterminated hget)
  have hwalk := h.fsGetNode 0 hlen habs
  rw [hwalk] at hget
  obtain rfl := Option.some.inj hget
  exact ⟨hlen, habs, rfl, walk_mem h.root_mem hx⟩

end Path

end TalOS
