-- SUMMARY: Places in a file tree: paths without links, and the place that any path leads to.
import TalOS.Coresys.Navigation
import TalOS.Lib.Hierarchy

/-!
# Plain paths

A plain path names every node but the links, and no node twice. Read through such paths, a
file tree is a hierarchy of directories and files, in which any path of the file system
leads where its components, links included, lead from the root.
-/

open MachineInt

namespace TalOS

open Hierarchy

variable {s s' : Ramfs} {T : Forest Nat} {x y : Nat} {name : List UInt8} {p q : List (List UInt8)}

/-- A string that is the name of no link. -/
def PlainName (name : List UInt8) : Prop := 0 ∉ name ∧ name ≠ DOT_NAME ∧ name ≠ DOTDOT_NAME

instance : DecidablePred PlainName := fun _ => inferInstanceAs (Decidable (_ ∧ _ ∧ _))

def PlainPath (p : List (List UInt8)) : Prop := ∀ name ∈ p, PlainName name

instance : DecidablePred PlainPath := fun p => inferInstanceAs (Decidable (∀ name ∈ p, _))

theorem plainPath_concat : PlainPath (p ++ [name]) ↔ PlainPath p ∧ PlainName name := by
  simp only [PlainPath, List.mem_append, List.mem_singleton, or_imp, forall_and, forall_eq]

/-- A file tree in which every directory starts with its links, names in one directory differ, and
every name has a NUL behind it. -/
structure TidyTree (s : Ramfs) (T : Forest Nat) : Prop where
  tree : FileTree s T
  dots : DotsFirst s T
  names : NamesDistinct s T
  short : ∀ D, ∀ x ∈ T.childrenOf D, (s.node x).name.length < MAX_FNAME

/-! ## Nodes at places -/

/-- Under a plain name no link is found. -/
theorem FileTree.findIn_plain (h : FileTree s T) (hname : PlainName name) (hfind : findIn s T x name ≠ 0) :
    (s.node (findIn s T x name)).type ≠ .symlink := by
  obtain ⟨-, -, hchild, hnamed⟩ := findIn_ne_zero hfind
  rw [ne_eq, h.link_iff hchild hname.1 hnamed, not_or]
  exact hname.2

theorem TidyTree.findIn_name (h : TidyTree s T) (hnul : 0 ∉ name) (hfind : findIn s T x name ≠ 0) :
    (s.node (findIn s T x name)).name = name := by
  obtain ⟨-, -, hchild, hnamed⟩ := findIn_ne_zero hfind
  exact ((named_short (h.short _ _ hchild) (h.tree.name_nul hchild) hnul).mp hnamed).symm

theorem FileTree.walk_plain (h : FileTree s T) (hp : PlainPath p) (hwalk : walk s T p ROOT ≠ 0) :
    (s.node (walk s T p ROOT)).type ≠ .symlink := by
  rcases List.eq_nil_or_concat p with rfl | ⟨init, name, rfl⟩
  · rw [walk, h.rootDir]
    exact FType.noConfusion
  · rw [List.concat_eq_append] at hp hwalk ⊢
    obtain ⟨-, hstep⟩ := walk_concat (h.ne_zero h.root_mem) hwalk
    rw [hstep] at hwalk ⊢
    exact h.findIn_plain (plainPath_concat.mp hp).2 hwalk

theorem resolve_of_ne (htype : (s.node x).type ≠ .symlink) : resolve s x = x := if_neg htype

/-- The last step of a plain path goes from a directory to its child with that name. -/
theorem TidyTree.walk_step (h : TidyTree s T) (hp : PlainPath (p ++ [name]))
    (hwalk : walk s T (p ++ [name]) ROOT ≠ 0) :
    walk s T p ROOT ≠ 0 ∧ (s.node (walk s T p ROOT)).type = .directory ∧
      walk s T (p ++ [name]) ROOT ∈ T.childrenOf (walk s T p ROOT) ∧
      (s.node (walk s T (p ++ [name]) ROOT)).name = name := by
  obtain ⟨hplain, hname⟩ := plainPath_concat.mp hp
  obtain ⟨hne, hstep⟩ := walk_concat (h.tree.ne_zero h.tree.root_mem) hwalk
  have hself := resolve_of_ne (h.tree.walk_plain hplain hne)
  rw [hstep] at hwalk ⊢
  obtain ⟨hdir, -, hchild, -⟩ := findIn_ne_zero hwalk
  rw [hself] at hdir hchild
  exact ⟨hne, hdir, hchild, h.findIn_name hname.1 hwalk⟩

/-- No node is at two places. -/
theorem TidyTree.walk_inj (h : TidyTree s T) (hp : PlainPath p) (hq : PlainPath q)
    (hwalk : walk s T p ROOT ≠ 0) (heq : walk s T p ROOT = walk s T q ROOT) : p = q := by
  have hroot {init : List (List UInt8)} {name : List UInt8} (hplain : PlainPath (init ++ [name])) :
      walk s T (init ++ [name]) ROOT ≠ ROOT := by
    intro hback
    have hne : walk s T (init ++ [name]) ROOT ≠ 0 := by
      rw [hback]
      exact h.tree.ne_zero h.tree.root_mem
    have hchild := (h.walk_step hplain hne).2.2.1
    rw [hback] at hchild
    exact h.tree.root_not_child hchild
  induction p using List.reverseRecOn generalizing q with
  | nil =>
    rcases List.eq_nil_or_concat q with rfl | ⟨init, name, rfl⟩
    · rfl
    · rw [List.concat_eq_append] at hq heq
      exact absurd heq.symm (hroot hq)
  | append_singleton p name ih =>
    rcases List.eq_nil_or_concat q with rfl | ⟨init, word, rfl⟩
    · exact absurd heq (hroot hp)
    · rw [List.concat_eq_append] at hq heq ⊢
      obtain ⟨hne, -, hchild, hname⟩ := h.walk_step hp hwalk
      obtain ⟨-, -, hchild', hname'⟩ := h.walk_step hq (heq ▸ hwalk)
      rw [← heq] at hchild' hname'
      have hparent := Forest.parent_unique h.tree.once hchild hchild'
      rw [ih (plainPath_concat.mp hp).1 (plainPath_concat.mp hq).1 hne hparent, ← hname, hname']

/-! ## The hierarchy -/

abbrev Files : Type := Hierarchy (List UInt8) (List UInt8)

/-- What a node holds: a file holds the bytes of its buffer. -/
def entryOf (s : Ramfs) (x : Nat) : Option (Entry (List UInt8)) :=
  if x = 0 then none
  else match (s.node x).type with
    | .directory => some .directory
    | .regular => some (.file (Memory.readAt s.heap.mem (s.node x).filePtr (s.node x).length))
    | _ => none

/-- What the nodes of the tree hold, by their places. -/
def filesOf (s : Ramfs) (T : Forest Nat) : Files := fun p =>
  if PlainPath p then entryOf s (walk s T p ROOT) else none

theorem filesOf_plain (hp : PlainPath p) : filesOf s T p = entryOf s (walk s T p ROOT) := if_pos hp

theorem entryOf_directory : entryOf s x = some .directory ↔ x ≠ 0 ∧ (s.node x).type = .directory := by
  unfold entryOf
  split
  · next hzero => simp [hzero]
  · next hne => cases (s.node x).type <;> simp [hne]

/-- Every node but a link is a directory or a file. -/
theorem FileTree.entryOf_isSome (h : FileTree s T) (hx : x = 0 ∨ x ∈ T.nodes)
    (htype : x ≠ 0 → (s.node x).type ≠ .symlink) : (entryOf s x).isSome ↔ x ≠ 0 := by
  unfold entryOf
  split
  · next hzero => simp [hzero]
  · next hne =>
    have hlink := htype hne
    rcases (h.kind x (hx.resolve_left hne)).type with hdir | hfile | hsym
    · simp [hdir, hne]
    · simp [hfile, hne]
    · exact absurd hsym hlink

theorem walk_mem_or (h : FileTree s T) (p : List (List UInt8)) :
    walk s T p ROOT = 0 ∨ walk s T p ROOT ∈ T.nodes := by
  by_cases hzero : walk s T p ROOT = 0
  · exact .inl hzero
  · exact .inr (walk_mem h.root_mem hzero)

theorem FileTree.filesOf_isSome (h : FileTree s T) :
    (filesOf s T p).isSome ↔ PlainPath p ∧ walk s T p ROOT ≠ 0 := by
  by_cases hp : PlainPath p
  · rw [filesOf_plain hp, h.entryOf_isSome (walk_mem_or h p) (h.walk_plain hp), and_iff_right hp]
  · rw [filesOf, if_neg hp]
    simp [hp]

theorem filesOf_directory : filesOf s T p = some .directory ↔
    PlainPath p ∧ walk s T p ROOT ≠ 0 ∧ (s.node (walk s T p ROOT)).type = .directory := by
  by_cases hp : PlainPath p
  · rw [filesOf_plain hp, entryOf_directory, and_iff_right hp]
  · rw [filesOf, if_neg hp]
    simp [hp]

theorem TidyTree.rooted (h : TidyTree s T) : (filesOf s T).Rooted where
  root := filesOf_directory.mpr ⟨nofun, h.tree.ne_zero h.tree.root_mem, h.tree.rootDir⟩
  above := by
    intro p name hsome
    obtain ⟨hp, hwalk⟩ := h.tree.filesOf_isSome.mp hsome
    obtain ⟨hne, hdir, -⟩ := h.walk_step hp hwalk
    exact filesOf_directory.mpr ⟨(plainPath_concat.mp hp).1, hne, hdir⟩

/-! ## Following a path -/

/-- What a component of a path stands for. -/
def stepOf (word : List UInt8) : PathStep (List UInt8) :=
  if word = DOT_NAME then .self else if word = DOTDOT_NAME then .parent else .entry word

/-- The place that a path leads to. -/
def Files.lookup (fs : Files) (path : List UInt8) : Option (List (List UInt8)) :=
  follow fs ((comps path).map stepOf) []

/-- The place `p` is that of `x`, or of the directory that the link `x` leads to. -/
structure PlaceOf (s : Ramfs) (T : Forest Nat) (p : List (List UInt8)) (x : Nat) : Prop where
  plain : PlainPath p
  mem : x ∈ T.nodes
  walk : walk s T p ROOT = resolve s x

theorem TidyTree.place_root (h : TidyTree s T) : PlaceOf s T [] ROOT :=
  ⟨nofun, h.tree.root_mem, (resolve_dir h.tree.rootDir).symm⟩

theorem PlaceOf.ne_zero (h : PlaceOf s T p x) (ht : FileTree s T) : resolve s x ≠ 0 :=
  ht.ne_zero (ht.resolve_mem h.mem)

theorem PlaceOf.directory (h : PlaceOf s T p x) (ht : FileTree s T) :
    filesOf s T p = some .directory ↔ (s.node (resolve s x)).type = .directory := by
  rw [filesOf_directory, and_iff_right h.plain, h.walk, and_iff_right (h.ne_zero ht)]

/-- The parent of a place is the parent of the directory there. -/
theorem TidyTree.place_parent (h : TidyTree s T) {D P : Nat} (hplace : PlaceOf s T p x)
    (hD : resolve s x = D) (hup : IsParent T D P) : walk s T p.dropLast ROOT = P := by
  have hwalk := hplace.walk.trans hD
  rcases List.eq_nil_or_concat p with rfl | ⟨init, name, rfl⟩
  · have hroot : ROOT = D := hwalk
    rcases hup with hchild | ⟨-, hP⟩
    · exact absurd (hroot ▸ hchild) h.tree.root_not_child
    · exact hP.symm
  · have hplain := hplace.plain
    rw [List.concat_eq_append] at hwalk hplain ⊢
    rw [List.dropLast_concat]
    have hne : walk s T (init ++ [name]) ROOT ≠ 0 := by
      rw [hwalk, ← hD]
      exact hplace.ne_zero h.tree
    obtain ⟨-, -, hchild, -⟩ := h.walk_step hplain hne
    rw [hwalk] at hchild
    rcases hup with hchild' | ⟨hroot, -⟩
    · exact Forest.parent_unique h.tree.once hchild hchild'
    · exact absurd (hroot ▸ hchild) h.tree.root_not_child

theorem PlainPath.dropLast (h : PlainPath p) : PlainPath p.dropLast :=
  fun name hmem => h name (List.dropLast_subset p hmem)

/-- One step from a directory: nothing is found at all, or the node and the place found belong together. -/
theorem TidyTree.place_step (h : TidyTree s T) (hplace : PlaceOf s T p x) (hnul : 0 ∉ name)
    (hdir : (s.node (resolve s x)).type = .directory) :
    findIn s T x name = 0 ∧ ¬ (filesOf s T (go p (stepOf name))).isSome ∨
      findIn s T x name ≠ 0 ∧ (filesOf s T (go p (stepOf name))).isSome ∧
        PlaceOf s T (go p (stepOf name)) (findIn s T x name) := by
  have hD := h.tree.resolve_mem hplace.mem
  have hlook : ∀ word, findIn s T x word = findIn s T (resolve s x) word := fun word =>
    findIn_congr (resolve_dir hdir).symm word
  obtain ⟨⟨hdot, hself⟩, hdotdot, hup⟩ := h.tree.dots_found h.dots hD hdir
  rw [← hlook] at hdot hself hdotdot hup
  unfold stepOf
  split
  · next hname =>
    rw [hname]
    have hwalk : walk s T p ROOT = resolve s (findIn s T x DOT_NAME) := hplace.walk.trans hself.symm
    refine .inr ⟨hdot, ?_, hplace.plain, findIn_mem hdot, hwalk⟩
    exact h.tree.filesOf_isSome.mpr ⟨hplace.plain, hplace.walk ▸ hplace.ne_zero h.tree⟩
  · next hnotDot =>
    split
    · next hname =>
      rw [hname]
      have hmem := findIn_mem hdotdot
      have hwalk := h.place_parent hplace rfl hup
      refine .inr ⟨hdotdot, ?_, hplace.plain.dropLast, hmem, hwalk⟩
      refine h.tree.filesOf_isSome.mpr ⟨hplace.plain.dropLast, ?_⟩
      rw [go, hwalk]
      exact h.tree.ne_zero (h.tree.resolve_mem hmem)
    · next hnotDotdot =>
      have hname : PlainName name := ⟨hnul, hnotDot, hnotDotdot⟩
      have hplain := plainPath_concat.mpr ⟨hplace.plain, hname⟩
      have hstep : walk s T (p ++ [name]) ROOT = findIn s T x name := by
        have hne : walk s T p ROOT ≠ 0 := hplace.walk ▸ hplace.ne_zero h.tree
        rw [walk_append _ _ (h.tree.ne_zero h.tree.root_mem), if_neg hne, walk_singleton, hplace.walk,
          hlook]
      by_cases hfind : findIn s T x name = 0
      · refine .inl ⟨hfind, fun hsome => ?_⟩
        exact (h.tree.filesOf_isSome.mp hsome).2 (hstep.trans hfind)
      · refine .inr ⟨hfind, h.tree.filesOf_isSome.mpr ⟨hplain, ?_⟩, hplain, findIn_mem hfind, ?_⟩
        · rw [go, hstep]
          exact hfind
        · rw [go, hstep, resolve_of_ne (h.tree.findIn_plain hname hfind)]

/-- Following components in the tree and in the hierarchy: both fail, or they lead to a node and its place. -/
theorem TidyTree.place_walk (h : TidyTree s T) {words : List (List UInt8)} (hwords : ∀ word ∈ words, 0 ∉ word)
    (hplace : PlaceOf s T p x) :
    walk s T words x = 0 ∧ follow (filesOf s T) (words.map stepOf) p = none ∨
      walk s T words x ≠ 0 ∧ ∃ q, follow (filesOf s T) (words.map stepOf) p = some q ∧
        PlaceOf s T q (walk s T words x) := by
  induction words generalizing p x with
  | nil => exact .inr ⟨h.tree.ne_zero hplace.mem, p, rfl, hplace⟩
  | cons word words ih =>
    rw [List.map_cons, follow, TalOS.walk]
    have hplace_dir := hplace.directory h.tree
    by_cases hdir : (s.node (resolve s x)).type = .directory
    · rcases h.place_step hplace (hwords word List.mem_cons_self) hdir with
        ⟨hzero, hnone⟩ | ⟨hne, hsome, hnext⟩
      · rw [if_pos hzero, if_neg fun hboth => hnone hboth.2]
        exact .inl ⟨rfl, rfl⟩
      · rw [if_neg hne, if_pos ⟨hplace_dir.mpr hdir, hsome⟩]
        exact ih (fun word' hmem => hwords word' (List.mem_cons_of_mem _ hmem)) hnext
    · have hzero : findIn s T x word = 0 := if_neg hdir
      rw [if_pos hzero, if_neg fun hboth => hdir (hplace_dir.mp hboth.1)]
      exact .inl ⟨rfl, rfl⟩

/-- A path of the file system leads to the place that the hierarchy says. -/
theorem TidyTree.fsGetNode_lookup (h : TidyTree s T) {path : List UInt8} (hnul : 0 ∉ path)
    (hlen : path.length < MAX_PATH) (habs : path.head? = some SLASH) :
    fsGetNode s 0 path = some 0 ∧ (filesOf s T).lookup path = none ∨
      ∃ x q, x ≠ 0 ∧ fsGetNode s 0 path = some x ∧ (filesOf s T).lookup path = some q ∧ PlaceOf s T q x := by
  have hwords : ∀ word ∈ comps path, 0 ∉ word := fun word hword hzero =>
    hnul ((comps_part hword).subset hzero)
  rw [h.tree.fsGetNode 0 hlen habs, Files.lookup]
  rcases h.place_walk hwords h.place_root with ⟨hzero, hnone⟩ | ⟨hne, q, hsome, hplace⟩
  · exact .inl ⟨congrArg some hzero, hnone⟩
  · exact .inr ⟨_, q, hne, rfl, hsome, hplace⟩

/-- What is found from `NULL` is found at its place. -/
theorem TidyTree.lookup_of_get (h : TidyTree s T) {path : List UInt8} (hnul : 0 ∉ path)
    (hget : fsGetNode s 0 path = some x) (hx : x ≠ 0) :
    ∃ q, (filesOf s T).lookup path = some q ∧ PlaceOf s T q x := by
  obtain ⟨hlen, habs, -, -⟩ := h.tree.fsGetNode_some hget hx
  rcases h.fsGetNode_lookup hnul hlen habs with ⟨hzero, -⟩ | ⟨y, q, -, hget', hlookup, hplace⟩
  · rw [hzero] at hget
    exact absurd (Option.some.inj hget).symm hx
  · rw [hget'] at hget
    obtain rfl := Option.some.inj hget
    exact ⟨q, hlookup, hplace⟩

end TalOS
