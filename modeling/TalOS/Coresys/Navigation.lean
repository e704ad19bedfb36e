-- SUMMARY: What `.` and `..` in a path lead to.
import Mathlib.Data.List.Find
import Mathlib.Data.List.Nodup
import TalOS.Coresys.FileSystem

/-!
# Navigation

A lookup looks at a link only through the directory it leads to, so what follows
`.` or `..` in a path is looked up in the directory itself or in its parent.
-/

namespace TalOS

open Forest (Seg)

variable {s s' : Ramfs} {T : Forest Nat}

/-! ## Looking through links -/

theorem findIn_congr {y z : Nat} (h : resolve s y = resolve s z) (name : List UInt8) :
    findIn s T y name = findIn s T z name := by
  rw [findIn, findIn, h]

/-- Two nodes that lead to the same directory cannot be told apart by what is looked up in them. -/
theorem walk_congr {y z : Nat} (h : resolve s y = resolve s z) {names : List (List UInt8)}
    (hne : names ≠ []) : walk s T names y = walk s T names z := by
  cases names with
  | nil => exact absurd rfl hne
  | cons name names => rw [walk, walk, findIn_congr h]

/-- The first two entries of a directory are found under their names. -/
theorem FileTree.dots_found {D : Nat} (h : FileTree s T) (hdots : DotsFirst s T) (hD : D ∈ T.nodes)
    (hdir : (s.node D).type = .directory) :
    (findIn s T D DOT_NAME ≠ 0 ∧ resolve s (findIn s T D DOT_NAME) = D) ∧
      findIn s T D DOTDOT_NAME ≠ 0 ∧ IsParent T D (resolve s (findIn s T D DOTDOT_NAME)) := by
  obtain ⟨dot, dotdot, rest, hlist, htype₁, hdot, htype₂, hdotdot⟩ := hdots D hD hdir
  have hmem₁ : dot ∈ T.childrenOf D := hlist ▸ List.mem_cons_self
  have hmem₂ : dotdot ∈ T.childrenOf D := hlist ▸ List.mem_cons_of_mem _ List.mem_cons_self
  have hnamed {y : Nat} {word name : List UInt8} (hword : (s.node y).name = word)
      (hlt : word.length < MAX_FNAME) (hnul : 0 ∉ word) (hnul' : 0 ∉ name) :
      named s name y = true ↔ name = word := by
    rw [← hword] at hlt hnul ⊢
    exact named_short hlt hnul hnul'
  have hfirst : findIn s T D DOT_NAME = dot := by
    rw [findIn_dir hdir, childNamed, hlist,
      List.find?_cons_of_pos ((hnamed hdot (by decide) (by decide) (by decide)).mpr rfl)]
    rfl
  have hsecond : findIn s T D DOTDOT_NAME = dotdot := by
    have hskip : ¬ named s DOTDOT_NAME dot = true := fun heq =>
      absurd ((hnamed hdot (by decide) (by decide) (by decide)).mp heq) (by decide)
    rw [findIn_dir hdir, childNamed, hlist, List.find?_cons_of_neg hskip,
      List.find?_cons_of_pos ((hnamed hdotdot (by decide) (by decide) (by decide)).mpr rfl)]
    rfl
  rw [hfirst, hsecond]
  refine ⟨⟨h.ne_zero (Forest.childrenOf_subset T hmem₁), ?_⟩,
    h.ne_zero (Forest.childrenOf_subset T hmem₂), ?_⟩
  · rw [resolve, if_pos htype₁]
    rcases h.links D dot hmem₁ htype₁ with ⟨-, hptr⟩ | ⟨hname, -⟩
    · exact hptr
    · rw [hdot] at hname
      exact absurd hname (by decide)
  · rw [resolve, if_pos htype₂]
    rcases h.links D dotdot hmem₂ htype₂ with ⟨hname, -⟩ | ⟨-, hup⟩
    · rw [hdotdot] at hname
      exact absurd hname (by decide)
    · exact hup

/-- After `.` a walk goes on in the directory itself. -/
theorem FileTree.walk_dot {D y : Nat} (h : FileTree s T) (hdots : DotsFirst s T) (hD : D ∈ T.nodes)
    (hdir : (s.node D).type = .directory) (hy : resolve s y = D) {names : List (List UInt8)}
    (hne : names ≠ []) : walk s T (DOT_NAME :: names) y = walk s T names D := by
  obtain ⟨⟨hfound, hself⟩, -⟩ := h.dots_found hdots hD hdir
  have hD' : resolve s D = D := resolve_dir hdir
  rw [walk_congr (hy.trans hD'.symm) (List.cons_ne_nil _ _), walk, if_neg hfound]
  exact walk_congr (hself.trans hD'.symm) hne

/-- After `..` it goes on in the parent. -/
theorem FileTree.walk_dotdot {D E y : Nat} (h : FileTree s T) (hdots : DotsFirst s T) (hD : D ∈ T.nodes)
    (hdir : (s.node D).type = .directory) (hE : IsParent T D E) (hy : resolve s y = D)
    {names : List (List UInt8)} (hne : names ≠ []) :
    walk s T (DOTDOT_NAME :: names) y = walk s T names E := by
  obtain ⟨-, hfound, hup⟩ := h.dots_found hdots hD hdir
  have hparent : resolve s (findIn s T D DOTDOT_NAME) = E := by
    rcases hup with hchild | ⟨hroot, hup⟩
    · rcases hE with hchild' | ⟨rfl, -⟩
      · exact Forest.parent_unique h.once hchild hchild'
      · exact absurd hchild h.root_not_child
    · rcases hE with hchild' | ⟨-, hE⟩
      · exact absurd (hroot ▸ hchild') h.root_not_child
      · exact hup.trans hE.symm
  have hEdir : (s.node E).type = .directory := by
    rcases hE with hchild | ⟨-, rfl⟩
    · exact h.parent_directory hchild
    · exact h.rootDir
  rw [walk_congr (hy.trans (resolve_dir hdir).symm) (List.cons_ne_nil _ _), walk, if_neg hfound]
  exact walk_congr (hparent.trans (resolve_dir hEdir).symm) hne

/-! ## Names of entries -/

/-- Only names that fill their array can be the names of two entries. -/
def ShortNamesDistinct (s : Ramfs) (T : Forest Nat) : Prop :=
  ∀ D, ∀ x ∈ T.childrenOf D, ∀ y ∈ T.childrenOf D, (s.node x).name = (s.node y).name →
    (s.node x).name.length < MAX_FNAME → x = y

theorem NamesDistinct.short (h : NamesDistinct s T) : ShortNamesDistinct s T :=
  fun D _ hx _ hy heq _ => List.inj_on_of_nodup_map (h D) hx hy heq

theorem ShortNamesDistinct.keep (h : ShortNamesDistinct s T) (hk : KeepsTree T s s') :
    ShortNamesDistinct s' T := by
  intro D x hx y hy
  rw [hk.node x (Forest.childrenOf_subset T hx), hk.node y (Forest.childrenOf_subset T hy)]
  exact h D x hx y hy

theorem Created.shortNamesDistinct {P a : Nat} {k : Forest Nat} {name : List UInt8}
    (h : Created T P a k name s s') (ht : FileTree s T) (hnames : ShortNamesDistinct s T)
    (hnul : 0 ∉ name) (hfind : findIn s T P name = 0) :
    ShortNamesDistinct s' (Forest.addChild P a k T) := by
  intro D x hx y hy heq hshort
  have hold {z : Nat} (hz : z ∈ T.childrenOf D) : (s'.node z).name = (s.node z).name := by
    obtain ⟨next, hnext⟩ := h.node (Forest.childrenOf_subset T hz)
    rw [hnext]
  -- A short name of an old entry is not the name of the new one.
  have hnew {z : Nat} (hz : z ∈ T.childrenOf P) (hlt : (s.node z).name.length < MAX_FNAME) :
      (s.node z).name ≠ name.take MAX_FNAME := by
    intro hcut
    have hlen : name.length < MAX_FNAME := by
      rw [hcut, List.length_take] at hlt
      omega
    rw [List.take_of_length_le (Nat.le_of_lt hlen)] at hcut
    exact ht.name_ne hnul hlen hfind hz hcut
  rcases h.mem_childrenOf ht hx with hx' | ⟨hD, rfl⟩ | ⟨hD, -⟩
  · rcases h.mem_childrenOf ht hy with hy' | ⟨hD, rfl⟩ | ⟨hD, -⟩
    · rw [hold hx'] at heq hshort
      rw [hold hy'] at heq
      exact hnames D x hx' y hy' heq hshort
    · rw [hold hx'] at heq hshort
      rw [h.nameEq] at heq
      exact absurd heq (hnew (hD ▸ hx') hshort)
    · exact absurd (Forest.parent_mem hx') hD
  · rcases h.mem_childrenOf ht hy with hy' | ⟨-, rfl⟩ | ⟨hD', -⟩
    · rw [heq, hold hy'] at hshort
      rw [h.nameEq, hold hy'] at heq
      exact absurd heq.symm (hnew (hD ▸ hy') hshort)
    · rfl
    · exact absurd (hD ▸ h.parent) hD'
  · have hdir := (h.toAttached.fileTree ht).parent_directory hx
    obtain ⟨dot, dotdot, hlist, -, hdot, -, hdotdot⟩ :=
      h.new_directory ht (Forest.parent_mem hx) hD hdir
    rw [hlist] at hx hy
    simp only [List.mem_cons, List.not_mem_nil, or_false] at hx hy
    rcases hx with rfl | rfl <;> rcases hy with rfl | rfl
    · rfl
    · rw [hdot, hdotdot] at heq
      exact absurd heq (by decide)
    · rw [hdot, hdotdot] at heq
      exact absurd heq (by decide)
    · rfl

/-- The trees that creations build. -/
theorem ramfsRun_creations_short {s₀ : Ramfs} (hboot : Boot s₀) {ops : List RamfsOp}
    (hops : ∀ op ∈ ops, op.Creates ∧ op.Proper) (hrun : ramfsRun s₀ ops = some s) :
    ∃ T, FileTree s T ∧ DotsFirst s T ∧ ShortNamesDistinct s T := by
  refine ramfsRun_preserves (I := fun s T => FileTree s T ∧ DotsFirst s T ∧ ShortNamesDistinct s T)
    (fun s T htree hdots hnames => ⟨htree, hdots, hnames.short⟩) ?_ hboot
    (fun r _ => .of_forall hops r.1) hrun
  rintro op s s' T ⟨hcreates, hproper⟩ ⟨htree, hdots, hnames⟩ hop
  rcases RamfsOp.creation_step hcreates hproper htree hop with hkeeps | hcreated
  · exact ⟨T, htree.keep hkeeps, hdots.keep hkeeps, hnames.keep hkeeps⟩
  · obtain ⟨P, a, k, name, path, hname, hparent, hcreated⟩ := hcreated
    have hnul : 0 ∉ name := by
      rcases hname with rfl | rfl
      · exact hproper.1
      · exact hproper.1
    obtain ⟨-, -, -, hfind⟩ := htree.creationParent hparent
    exact ⟨_, hcreated.toAttached.fileTree htree, hcreated.dotsFirst htree hdots,
      hcreated.shortNamesDistinct htree hnames hnul hfind⟩

/-- What passes for a full name: the entries that have it and a zero behind it. -/
theorem FileTree.named_full {D y : Nat} {name : List UInt8} (h : FileTree s T) (hy : y ∈ T.childrenOf D)
    (hnul : 0 ∉ name) (hfull : name.length = MAX_FNAME) :
    named s name y = decide ((s.node y).name = name ∧ (s.node y).ino % 256 = 0) := by
  have hzero : stringBytes name MAX_FNAME = 0 :=
    List.getD_eq_default _ _ (Nat.le_of_eq hfull)
  have hbyte : (s.node y).ino.toUInt8 = 0 ↔ (s.node y).ino % 256 = 0 := by
    rw [← UInt8.toNat_inj]
    rfl
  rw [Bool.eq_iff_iff, decide_eq_true_iff]
  rcases Nat.lt_or_eq_of_le (h.name_length hy) with hlt | heq
  · rw [named_short hlt (h.name_nul hy) hnul]
    constructor
    · rintro rfl
      exact absurd hfull (Nat.ne_of_lt hlt)
    · rintro ⟨hname, -⟩
      exact hname.symm
  · rw [named_long heq (h.name_nul hy), List.take_of_length_le (Nat.le_of_eq hfull), hzero, hbyte]
    exact and_congr_left fun _ => eq_comm

/-! ## Paths with dots -/

/-- A relative path that is not empty. -/
def IsRelative (path : List UInt8) : Prop := path ≠ [] ∧ path.head? ≠ some SLASH

theorem IsRelative.comps {path : List UInt8} (h : IsRelative path) : comps path ≠ [] := by
  cases path with
  | nil => exact absurd rfl h.1
  | cons c cs =>
    have hc : c ≠ SLASH := fun heq => h.2 (congrArg some heq)
    rw [TalOS.comps, splitPath, if_neg hc, if_neg (List.cons_ne_nil _ _)]
    exact List.cons_ne_nil _ _

/-- Below the directory at `P` with an entry `c`, below `P/.` and `P/c/..` the same is found as below
`P`, and below `/..` the same as below `/`; and every link that a path leads to ends at a directory. -/
def DotsNavigate (s : Ramfs) (P c : List UInt8) : Prop :=
  (∀ q, IsRelative q →
    ((joinPath P (joinPath DOT_NAME q)).length < MAX_PATH →
      fsGetNode s 0 (joinPath P (joinPath DOT_NAME q)) = fsGetNode s 0 (joinPath P q)) ∧
    ((joinPath P (joinPath c (joinPath DOTDOT_NAME q))).length < MAX_PATH →
      fsGetNode s 0 (joinPath P (joinPath c (joinPath DOTDOT_NAME q))) =
        fsGetNode s 0 (joinPath P q)) ∧
    ((joinPath [] (joinPath DOTDOT_NAME q)).length < MAX_PATH →
      fsGetNode s 0 (joinPath [] (joinPath DOTDOT_NAME q)) = fsGetNode s 0 (joinPath [] q))) ∧
  ∀ path x, fsGetNode s 0 path = some x → x ≠ 0 → (s.node x).type = .symlink →
    ∃ D, vfsNodeFromSimlink s POINTERS x = some D ∧ (s.node D).type = .directory

/-- A name under which a directory of the list is found: `strncmp` reads a name that fills its array
together with the lowest byte of the inode number. -/
def FindsDirectory (s : Ramfs) (entries : List Nat) (name : List UInt8) : Prop :=
  name.length < MAX_FNAME ∨ ∃ y,
    entries.find? (fun y => (s.node y).name = name ∧ (s.node y).ino % 256 = 0) = some y ∧
      (s.node y).type = .directory

theorem FileTree.vfsNodeFromSimlink (h : FileTree s T) {x : Nat} (hx : x ∈ T.nodes) :
    TalOS.vfsNodeFromSimlink s POINTERS x = some (resolve s x) := by
  rw [show POINTERS = (2 ^ 32 - 2) + 2 by rfl]
  exact h.nodeFromSimlink hx _

/-- Following links from a node in the tree ends at a directory. -/
theorem FileTree.links_end (h : FileTree s T) {path : List UInt8} {x : Nat}
    (hget : TalOS.fsGetNode s 0 path = some x) (hx : x ≠ 0) (htype : (s.node x).type = .symlink) :
    ∃ D, TalOS.vfsNodeFromSimlink s POINTERS x = some D ∧ (s.node D).type = .directory := by
  have hmem := (h.fsGetNode_some hget hx).2.2.2
  refine ⟨_, h.vfsNodeFromSimlink hmem, ?_⟩
  rw [resolve, if_pos htype]
  exact (h.link_target hmem htype).2

/-- A lookup below the path of a directory. -/
theorem FileTree.fsGetNode_joinPath (h : FileTree s T) {P q : List UInt8} {y : Nat}
    (hget : TalOS.fsGetNode s 0 P = some y) (hy : y ≠ 0) (hlen : (joinPath P q).length < MAX_PATH) :
    TalOS.fsGetNode s 0 (joinPath P q) = some (TalOS.walk s T (comps q) y) := by
  obtain ⟨-, habs, hwalk, -⟩ := h.fsGetNode_some hget hy
  have habs' : (joinPath P q).head? = some SLASH := by
    cases P with
    | nil => cases habs
    | cons c cs => exact habs
  rw [h.fsGetNode 0 hlen habs', comps_joinPath, walk_append _ _ (h.ne_zero h.root_mem), ← hwalk,
    if_neg hy]

/-- Two lookups through the same directory, by a path that fits and one that is not longer. -/
theorem FileTree.fsGetNode_joinPath_eq_iff (h : FileTree s T) {P q q' : List UInt8} {y : Nat}
    (hget : TalOS.fsGetNode s 0 P = some y) (hy : y ≠ 0) (hlen : (joinPath P q).length < MAX_PATH)
    (hle : q'.length ≤ q.length) :
    TalOS.fsGetNode s 0 (joinPath P q) = TalOS.fsGetNode s 0 (joinPath P q') ↔
      TalOS.walk s T (comps q) y = TalOS.walk s T (comps q') y := by
  have hlen' : (joinPath P q').length < MAX_PATH := by
    rw [length_joinPath] at hlen ⊢
    omega
  rw [h.fsGetNode_joinPath hget hy hlen, h.fsGetNode_joinPath hget hy hlen', Option.some.injEq]

/-- A directory is found under the name of a child directory exactly if `FindsDirectory` says so. -/
theorem FileTree.finds_directory {D x : Nat} (h : FileTree s T) (hnames : ShortNamesDistinct s T)
    (hx : x ∈ T.childrenOf D) (hxdir : (s.node x).type = .directory) :
    FindsDirectory s (T.childrenOf D) (s.node x).name ↔
      findIn s T D (s.node x).name ≠ 0 ∧
        (s.node (findIn s T D (s.node x).name)).type = .directory := by
  have hdir := h.parent_directory hx
  have hnul := h.name_nul hx
  have hxlegal := h.names D x hx (by rw [hxdir]; exact FType.noConfusion)
  rw [findIn_dir hdir]
  rcases Nat.lt_or_eq_of_le hxlegal.length with hshort | hfull
  · -- A short name is found at the one entry that has it.
    have hself : childNamed s T D (s.node x).name = x := by
      rcases childNamed_cases s T D (s.node x).name with ⟨-, hnone⟩ | ⟨hmem, hnamed⟩
      · have hyes := (named_short hshort hnul hnul).mpr rfl
        rw [hnone x hx] at hyes
        cases hyes
      · generalize childNamed s T D (s.node x).name = y at hmem hnamed
        have hlt : (s.node y).name.length < MAX_FNAME := by
          by_contra hge
          have hlong := Nat.le_antisymm (h.name_length hmem) (Nat.not_lt.mp hge)
          have htake := ((named_long hlong (h.name_nul hmem)).mp hnamed).1
          rw [List.take_of_length_le (Nat.le_of_lt hshort)] at htake
          exact hge (htake ▸ hshort)
        have heq := (named_short hlt (h.name_nul hmem) hnul).mp hnamed
        exact (hnames D x hx y hmem heq hshort).symm
    rw [hself]
    exact iff_of_true (.inl hshort) ⟨h.ne_zero (Forest.childrenOf_subset T hx), hxdir⟩
  · have hfind : (T.childrenOf D).find? (named s (s.node x).name) =
        (T.childrenOf D).find? fun y =>
          (s.node y).name = (s.node x).name ∧ (s.node y).ino % 256 = 0 :=
      List.find?_congr fun y hy => h.named_full hy hnul hfull
    rw [childNamed, hfind]
    constructor
    · rintro (hlt | ⟨y, hy, hydir⟩)
      · exact absurd hfull (Nat.ne_of_lt hlt)
      · rw [hy]
        have hmem := List.mem_of_find?_eq_some hy
        exact ⟨h.ne_zero (Forest.childrenOf_subset T hmem), hydir⟩
    · rintro ⟨hne, hydir⟩
      cases hy : (T.childrenOf D).find? fun y =>
          (s.node y).name = (s.node x).name ∧ (s.node y).ino % 256 = 0 with
      | none =>
        rw [hy] at hne
        exact absurd rfl hne
      | some y =>
        rw [hy] at hydir
        exact .inr ⟨y, hy, hydir⟩

/-- Where `P/c/..` leads. -/
theorem FileTree.walk_up {D x y : Nat} (h : FileTree s T) (hdots : DotsFirst s T)
    (hnames : ShortNamesDistinct s T) (hD : resolve s y = D) (hx : x ∈ T.childrenOf D)
    (hxdir : (s.node x).type = .directory)
    (hname : ((s.node x).name ≠ [] ∨ D = ROOT) ∧ FindsDirectory s (T.childrenOf D) (s.node x).name)
    {names : List (List UInt8)} (hne : names ≠ []) :
    walk s T (comps (s.node x).name ++ DOTDOT_NAME :: names) y = walk s T names y := by
  have hdir := h.parent_directory hx
  have hDmem := Forest.parent_mem hx
  have hself : walk s T names y = walk s T names D :=
    walk_congr (hD.trans (resolve_dir hdir).symm) hne
  have hslash := (h.names D x hx (by rw [hxdir]; exact FType.noConfusion)).slash
  obtain ⟨hempty, hfinds⟩ := hname
  obtain ⟨hfound, hzdir⟩ := (h.finds_directory hnames hx hxdir).mp hfinds
  rw [comps_of_no_slash hslash]
  by_cases hnil : (s.node x).name = []
  · have hroot : D = ROOT := hempty.resolve_left (fun hne => hne hnil)
    rw [if_pos hnil, List.nil_append, h.walk_dotdot hdots hDmem hdir (.inr ⟨hroot, hroot⟩) hD hne, hself]
  · rw [if_neg hnil, List.singleton_append, walk_congr (hD.trans (resolve_dir hdir).symm)
      (List.cons_ne_nil _ _), walk, if_neg hfound, hself]
    have hchild := (findIn_ne_zero hfound).2.2.1
    rw [resolve_dir hdir] at hchild
    exact h.walk_dotdot hdots (findIn_mem hfound) hzdir (.inl hchild) (resolve_dir hzdir) hne

/-- What a walk through `c/../.` from a directory needs. -/
theorem FileTree.walk_up_found {D x y : Nat} (h : FileTree s T) (hdots : DotsFirst s T)
    (hnames : ShortNamesDistinct s T) (hD : resolve s y = D) (hx : x ∈ T.childrenOf D)
    (hxdir : (s.node x).type = .directory)
    (hwalk : walk s T (comps (s.node x).name ++ [DOTDOT_NAME, DOT_NAME]) y = walk s T [DOT_NAME] y) :
    ((s.node x).name ≠ [] ∨ D = ROOT) ∧ FindsDirectory s (T.childrenOf D) (s.node x).name := by
  have hdir := h.parent_directory hx
  have hDmem := Forest.parent_mem hx
  have hlegal := h.names D x hx (by rw [hxdir]; exact FType.noConfusion)
  have hdot {z : Nat} (hz : z ∈ T.nodes) (hzdir : (s.node z).type = .directory) :
      findIn s T z DOT_NAME ∈ T.childrenOf z ∧ findIn s T z DOT_NAME ≠ 0 := by
    obtain ⟨⟨hfound, -⟩, -⟩ := h.dots_found hdots hz hzdir
    have hchild := (findIn_ne_zero hfound).2.2.1
    rw [resolve_dir hzdir] at hchild
    exact ⟨hchild, hfound⟩
  have hself : findIn s T y DOT_NAME = findIn s T D DOT_NAME :=
    findIn_congr (hD.trans (resolve_dir hdir).symm) _
  rw [walk_singleton, hself, comps_of_no_slash hlegal.slash] at hwalk
  by_cases hnil : (s.node x).name = []
  · -- An empty component is skipped, so that `..` is looked up in `D` itself.
    refine ⟨.inr ?_, .inl (by rw [hnil]; decide)⟩
    obtain ⟨-, -, hup⟩ := h.dots_found hdots hDmem hdir
    generalize resolve s (findIn s T D DOTDOT_NAME) = E at hup
    rw [if_pos hnil, List.nil_append, h.walk_dotdot hdots hDmem hdir hup hD (List.cons_ne_nil _ _),
      walk_singleton] at hwalk
    rcases hup with hchild | ⟨hroot, -⟩
    · have hE := hdot (Forest.parent_mem hchild) (h.parent_directory hchild)
      have hsame := Forest.parent_unique h.once hE.1 (hwalk ▸ (hdot hDmem hdir).1)
      exact absurd (Forest.roots_subset_nodes _ (hsame ▸ hchild)) (Forest.not_mem_kidsOf h.once)
    · exact hroot
  · refine ⟨.inl hnil, (h.finds_directory hnames hx hxdir).mpr ?_⟩
    rw [if_neg hnil, List.singleton_append, walk_congr (hD.trans (resolve_dir hdir).symm)
      (List.cons_ne_nil _ _), walk] at hwalk
    split at hwalk
    · exact absurd hwalk.symm (hdot hDmem hdir).2
    · next hfound =>
      refine ⟨hfound, ?_⟩
      obtain ⟨-, -, hchild, hnamed⟩ := findIn_ne_zero hfound
      have hlink := h.link_iff hchild hlegal.nul hnamed
      generalize findIn s T D (s.node x).name = z at *
      have hzdir : (s.node (resolve s z)).type = .directory := by
        have hup : findIn s T z DOTDOT_NAME ≠ 0 := by
          intro hzero
          rw [walk, if_pos hzero] at hwalk
          exact (hdot hDmem hdir).2 hwalk.symm
        exact (findIn_ne_zero hup).1
      have hzself : resolve s z = z := by
        rw [resolve, if_neg]
        rw [hlink, not_or]
        exact ⟨hlegal.dot, hlegal.dotdot⟩
      rwa [hzself] at hzdir

/-- In a state that creations have built, `.` and `..` navigate as they should below a directory `D`
with a child directory `x`, exactly if no path through `x` fits, or the name of `x` is not empty
(below the root directory it may be) and a directory is found under it. -/
theorem dots_navigate_iff (s₀ : Ramfs) (ops : List RamfsOp) (s : Ramfs) (hboot : Boot s₀)
    (hops : ∀ op ∈ ops, op.Creates ∧ op.Proper) (hrun : ramfsRun s₀ ops = some s)
    (P : List UInt8) (y D x : Nat) (entries : List Nat)
    (hget : fsGetNode s 0 P = some y) (hy : y ≠ 0) (hD : vfsNodeFromSimlink s POINTERS y = some D)
    (hentries : Seg s.nextPtr 0 (s.node D).children entries) (hdir : (s.node D).type = .directory)
    (hx : x ∈ entries) (hxdir : (s.node x).type = .directory) :
    DotsNavigate s P (s.node x).name ↔
      MAX_PATH ≤ P.length + (s.node x).name.length + 6 ∨
        ((s.node x).name ≠ [] ∨ D = ROOT) ∧ FindsDirectory s entries (s.node x).name := by
  obtain ⟨T, h, hdots, hnames⟩ := ramfsRun_creations_short hboot hops hrun
  have hymem := (h.fsGetNode_some hget hy).2.2.2
  rw [h.vfsNodeFromSimlink hymem] at hD
  have hself : resolve s y = D := Option.some.inj hD
  have hDmem : D ∈ T.nodes := hself ▸ h.resolve_mem hymem
  obtain rfl : entries = T.childrenOf D := hentries.unique (h.seg hDmem)
  have hlength (q : List UInt8) :
      (joinPath P (joinPath (s.node x).name (joinPath DOTDOT_NAME q))).length =
        P.length + (s.node x).name.length + 5 + q.length := by
    simp only [length_joinPath, DOTDOT_NAME, List.length_cons, List.length_nil]
    omega
  have hjoin (q : List UInt8) : comps (joinPath (s.node x).name (joinPath DOTDOT_NAME q)) =
      comps (s.node x).name ++ DOTDOT_NAME :: comps q := by
    rw [comps_joinPath, comps_joinPath]
    rfl
  have hle (name q : List UInt8) : q.length ≤ (joinPath name (joinPath DOTDOT_NAME q)).length := by
    simp only [length_joinPath]
    omega
  constructor
  · -- A path through `x` and up again to `.` is the shortest one; if it fits, it tells.
    rintro ⟨hq, -⟩
    by_cases hfit : MAX_PATH ≤ P.length + (s.node x).name.length + 6
    · exact .inl hfit
    · refine .inr (h.walk_up_found hdots hnames hself hx hxdir ?_)
      obtain ⟨-, hup, -⟩ := hq DOT_NAME ⟨by decide, by decide⟩
      have hlen : (joinPath P (joinPath (s.node x).name (joinPath DOTDOT_NAME DOT_NAME))).length <
          MAX_PATH := by
        rw [hlength]
        exact Nat.not_le.mp hfit
      have heq := (h.fsGetNode_joinPath_eq_iff hget hy hlen (hle _ _)).mp (hup hlen)
      rwa [hjoin] at heq
  · -- Through `.`, through `x` and `..`, and through `..` of the root directory.
    intro hcond
    refine ⟨fun q hq => ⟨fun hlen => ?_, fun hlen => ?_, fun hlen => ?_⟩,
      fun path z hpath hz htype => h.links_end hpath hz htype⟩
    · refine (h.fsGetNode_joinPath_eq_iff hget hy hlen (by rw [length_joinPath]; omega)).mpr ?_
      rw [comps_joinPath]
      refine (h.walk_dot hdots hDmem hdir hself hq.comps).trans ?_
      exact walk_congr ((resolve_dir hdir).trans hself.symm) hq.comps
    · have hfit : ¬ MAX_PATH ≤ P.length + (s.node x).name.length + 6 := by
        rw [hlength] at hlen
        have hpos := List.length_pos_iff.mpr hq.1
        omega
      refine (h.fsGetNode_joinPath_eq_iff hget hy hlen (hle _ _)).mpr ?_
      rw [hjoin]
      exact h.walk_up hdots hnames hself hx hxdir (hcond.resolve_left hfit) hq.comps
    · have hlen' : (joinPath [] q).length < MAX_PATH := by
        simp only [length_joinPath] at hlen ⊢
        omega
      rw [h.fsGetNode 0 hlen rfl, h.fsGetNode 0 hlen' rfl, comps_joinPath, comps_joinPath,
        comps_joinPath]
      exact congrArg some (h.walk_dotdot hdots h.root_mem h.rootDir (.inr ⟨rfl, rfl⟩)
        (resolve_dir h.rootDir) hq.comps)

/-- A directory `a` in the root directory. -/
theorem dots_navigate_short_name :
    ∃ s, ramfsRun bootRamfs [.mkDir [0x61] [SLASH]] = some s ∧ DotsNavigate s [SLASH] [0x61] := by
  have hrun : (ramfsRun bootRamfs [.mkDir [0x61] [SLASH]]).any (fun s =>
      let dot := (s.node ROOT).children
      let dotdot := s.nextPtr dot
      let dir := s.nextPtr dotdot
      dot ≠ 0 && dotdot ≠ 0 && dir ≠ 0 && s.nextPtr dir = 0 && (s.node ROOT).type = .directory &&
        (s.node dir).type = .directory && (s.node dir).name = [0x61] &&
        fsGetNode s 0 [SLASH] = some ROOT && vfsNodeFromSimlink s POINTERS ROOT = some ROOT) = true := by
    decide +kernel
  obtain ⟨s, hs, hcheck⟩ := (Option.any_eq_true ..).mp hrun
  simp only [Bool.and_eq_true, decide_eq_true_eq] at hcheck
  obtain ⟨⟨⟨⟨⟨⟨⟨⟨hdot, hdotdot⟩, hdir⟩, hlast⟩, hroot⟩, htype⟩, hname⟩, hget⟩, hself⟩ := hcheck
  have hnavigate := dots_navigate_iff bootRamfs _ s bootRamfs_boot (by decide) hs [SLASH] ROOT
    ROOT _ [_, _, _] hget (by decide) hself ⟨rfl, hdot, rfl, hdotdot, rfl, hdir, hlast⟩ hroot
    (List.mem_cons_of_mem _ (List.mem_cons_of_mem _ List.mem_cons_self)) htype
  rw [hname] at hnavigate
  exact ⟨s, hs, hnavigate.mpr (.inr ⟨.inr rfl, .inl (by decide)⟩)⟩

/-- A directory in the root directory with a name of 128 bytes is not found. -/
theorem dots_navigate_full_name :
    ∃ s x, ramfsRun bootRamfs [.mkDir (List.replicate 128 0x61) [SLASH]] = some s ∧
      x = s.nextPtr (s.nextPtr (s.childPtr ROOT)) ∧ (s.node x).type = .directory ∧
      (s.node x).name = List.replicate 128 0x61 ∧ fsGetNode s 0 [SLASH] = some ROOT ∧
      ¬ DotsNavigate s [SLASH] (List.replicate 128 0x61) := by
  have hrun : (ramfsRun bootRamfs [.mkDir (List.replicate 128 0x61) [SLASH]]).any (fun s =>
      let x := s.nextPtr (s.nextPtr (s.childPtr ROOT))
      (s.node x).type = .directory && (s.node x).name = List.replicate 128 0x61 &&
        fsGetNode s 0 [SLASH] = some ROOT &&
        fsGetNode s 0 (joinPath [SLASH] (joinPath (List.replicate 128 0x61)
          (joinPath DOTDOT_NAME DOT_NAME))) ≠ fsGetNode s 0 (joinPath [SLASH] DOT_NAME)) = true := by
    decide +kernel
  obtain ⟨s, hs, hcheck⟩ := (Option.any_eq_true ..).mp hrun
  simp only [Bool.and_eq_true, decide_eq_true_eq] at hcheck
  obtain ⟨⟨⟨htype, hname⟩, hget⟩, hdiffer⟩ := hcheck
  refine ⟨s, _, hs, rfl, htype, hname, hget, fun hnavigate => hdiffer ?_⟩
  exact (hnavigate.1 DOT_NAME ⟨by decide, by decide⟩).2.1 (by decide +kernel)

/-! ## A path as a fold -/

/-- The lookup of a path is the fold of `fs_find` over its components; slashes that follow one
another or end the path do not matter; and a path is followed in two parts. -/
theorem fsGetNode_fold (s : Ramfs) (cur : Nat) (path : List UInt8) (hlen : path.length < MAX_PATH) :
    fsGetNode s cur path = (comps path).foldlM (findStep s) (pathStart s cur path) ∧
      (∀ a b, path = joinPath a (SLASH :: b) → fsGetNode s cur path = fsGetNode s cur (joinPath a b)) ∧
      (∀ a, a ≠ [] → path = joinPath a [] → fsGetNode s cur path = fsGetNode s cur a) ∧
      ∀ p q, p ≠ [] → q.head? ≠ some SLASH → path = joinPath p q →
        (fsGetNode s cur p).bind (fun x => fsGetNode s x q) = fsGetNode s cur path := by
  have hstart (a b : List UInt8) (ha : a ≠ []) : pathStart s cur (joinPath a b) = pathStart s cur a := by
    cases a with
    | nil => exact absurd rfl ha
    | cons c cs => rfl
  refine ⟨fsGetNode_eq_fold hlen, ?_, ?_, ?_⟩
  · rintro a b rfl
    have hlen' : (joinPath a b).length < MAX_PATH := by
      simp only [length_joinPath, List.length_cons] at hlen ⊢
      omega
    have hsame : pathStart s cur (joinPath a (SLASH :: b)) = pathStart s cur (joinPath a b) := by
      cases a with
      | nil => rfl
      | cons c cs => rfl
    rw [fsGetNode_eq_fold hlen, fsGetNode_eq_fold hlen', hsame, comps_joinPath, comps_joinPath,
      comps_slash]
  · rintro a ha rfl
    have hlen' : a.length < MAX_PATH := by
      simp only [length_joinPath] at hlen
      omega
    rw [fsGetNode_eq_fold hlen, fsGetNode_eq_fold hlen', hstart a [] ha, comps_joinPath, comps_nil,
      List.append_nil]
  · rintro p q hp hq rfl
    have hlen' : p.length < MAX_PATH ∧ q.length < MAX_PATH := by
      simp only [length_joinPath] at hlen
      omega
    rw [fsGetNode_eq_fold hlen, fsGetNode_eq_fold hlen'.1, hstart p q hp, comps_joinPath,
      List.foldlM_append]
    refine congrArg (Option.bind _) (funext fun x => ?_)
    rw [fsGetNode_eq_fold hlen'.2, pathStart, if_neg hq]

/-- A path with a double and a trailing slash. -/
theorem fsGetNode_fold_slashes :
    fsGetNode bootRamfs 0 [SLASH, SLASH, 0x61, SLASH] = fsGetNode bootRamfs 0 [SLASH, SLASH, 0x61] ∧
      fsGetNode bootRamfs 0 [SLASH, SLASH, 0x61] = fsGetNode bootRamfs 0 [SLASH, 0x61] :=
  ⟨(fsGetNode_fold bootRamfs 0 _ (by decide)).2.2.1 [SLASH, SLASH, 0x61] (by decide) rfl,
    (fsGetNode_fold bootRamfs 0 _ (by decide)).2.1 [] [0x61] rfl⟩

end TalOS
