-- SUMMARY: Reading a directory by index: it lists what lookups find, once each, in the order of creation.
import TalOS.Coresys.ParentPaths

/-!
# Reading directories

`fs_readdir` walks the list of children by position, `fs_find` by name. In a state that
creations with short names have built, both describe the same entries: the two links,
and then what was created in the directory, in order.
-/

open MachineInt

namespace TalOS

open Forest

/-- `dirent_t` -/
structure Dirent where
  dIno : Nat
  dReclen : Nat
  dType : FType
  dName : List UInt8
deriving Repr, DecidableEq

/-- `sizeof(dirent_t)` on IA32. -/
def SIZEOF_DIRENT : Nat := 136

/-- The loop of `ramfs_readdir`, `left` steps before the index: the steps that are left after it, and
the node. -/
def readdirLoop (s : Ramfs) : Nat → Nat → Nat × Nat
  | 0, p => (0, p)
  | left + 1, p => if p = 0 then (left + 1, 0) else readdirLoop s left (s.node p).next

/-- Fill the caller's record in; the length of a name without NUL is undefined. -/
def fillDirent (n : RamfsFileHeader) : Option Dirent :=
  let dName := strncpy n.name MAX_FNAME
  if dName.terminated then
    some
      { dIno := n.ino
        dReclen := u16 (SIZEOF_DIRENT - MAX_FNAME + dName.bytes.length)
        dType := n.type
        dName := dName.bytes }
  else none

/-- `ramfs_readdir`: what is returned, and the record behind `*result`, `none` for `NULL`. -/
def ramfsReaddir (s : Ramfs) (dirNode index : Nat) : Option (Int × Option Dirent) :=
  if dirNode = 0 ∨ (s.node dirNode).callbacks.readdirFn = false ∨
      (s.node dirNode).type ≠ .directory then some (VFS_T_NOK, none)
  else if (s.node dirNode).children = 0 then some (VFS_T_OK, none)
  else
    let r := readdirLoop s index (s.node dirNode).children
    if r.1 ≠ 0 ∨ r.2 = 0 then some (VFS_T_OK, none)
    else (fillDirent (s.node r.2)).map fun entry => (VFS_T_OK, some entry)

/-- `fs_readdir`; without a callback `*result` is not set. -/
def fsReaddir (s : Ramfs) (dirNode index : Nat) : Option (Int × Option Dirent) :=
  (vfsNodeFromSimlink s POINTERS dirNode).bind fun dirNode =>
    if (s.node dirNode).callbacks.readdirFn then ramfsReaddir s dirNode index
    else some (VFS_T_NOK, none)

/-! ## What is created where -/

/-- The directory and the new node of a creation that succeeds. -/
def madeIn (dir : Option Nat) (result : Option (Ramfs × Nat × RfsErr)) : List (Nat × Nat) :=
  match dir, result with
  | some P, some (_, x, .ok) => [(P, x)]
  | _, _ => []

def RamfsOp.made : RamfsOp → Ramfs → List (Nat × Nat)
  | .mkDir name path, s => madeIn (fsGetNode s 0 path) (ramfsMkDir s name path)
  | .newRegFile name path, s => madeIn (fsGetNode s 0 path) (ramfsNewRegFile s name path)
  | .write _ _ _, _ | .deleteNode _, _ => []

/-- What the calls create, in order. -/
def creationLog : List RamfsOp → Ramfs → List (Nat × Nat)
  | [], _ => []
  | op :: ops, s =>
    op.made s ++
      match op.step s with
      | some s' => creationLog ops s'
      | none => []

/-- What a run creates after `ramfs_init`. -/
def ramfsLog (s : Ramfs) (ops : List RamfsOp) : List (Nat × Nat) :=
  match ramfsInit s with
  | some (s', .ok) => creationLog ops s'
  | _ => []

/-- The nodes created in `D`. -/
def createdIn (D : Nat) (log : List (Nat × Nat)) : List Nat :=
  (log.filter fun e => e.1 = D).map fun e => e.2

/-- The name that the call creates, if any, fits its array with a NUL. -/
def RamfsOp.ShortName : RamfsOp → Prop
  | .mkDir name _ | .newRegFile name _ => name.length < MAX_FNAME
  | .write _ _ _ | .deleteNode _ => True

instance : DecidablePred RamfsOp.ShortName
  | .mkDir name _ | .newRegFile name _ => inferInstanceAs (Decidable (name.length < MAX_FNAME))
  | .write _ _ _ | .deleteNode _ => inferInstanceAs (Decidable True)

variable {s s' : Ramfs} {T : Forest Nat} {D x i : Nat}

theorem createdIn_append (D : Nat) (log log' : List (Nat × Nat)) :
    createdIn D (log ++ log') = createdIn D log ++ createdIn D log' := by
  rw [createdIn, List.filter_append, List.map_append]
  rfl

theorem createdIn_singleton (D P a : Nat) : createdIn D [(P, a)] = if D = P then [a] else [] := by
  by_cases hP : P = D
  · simp [createdIn, hP]
  · simp [createdIn, hP, Ne.symm hP]

theorem createdIn_eq_nil {log : List (Nat × Nat)} (h : ∀ e ∈ log, e.1 ≠ D) : createdIn D log = [] := by
  rw [createdIn, List.filter_eq_nil_iff.mpr fun e he => by simpa using h e he, List.map_nil]

/-- One creation: refused, or a node that the log names. -/
theorem RamfsOp.made_step {op : RamfsOp} (hcreates : op.Creates) (hproper : op.Proper)
    (hshort : op.ShortName) (h : FileTree s T) (hstep : op.step s = some s') :
    op.made s = [] ∧ KeepsTree T s s' ∨
      ∃ P a k name path, op.made s = [(P, a)] ∧ 0 ∉ name ∧ name.length < MAX_FNAME ∧
        creationParent s name path = some (.ok, P) ∧ Created T P a k name s s' := by
  have hmade {name path : List UInt8} {x : Nat} {err : RfsErr} (hnul : 0 ∉ name)
      (hshort : name.length < MAX_FNAME) {s₁ : Ramfs} (hout : CreationOutcome T name path s s₁ x err) :
      madeIn (fsGetNode s 0 path) (some (s₁, x, err)) = [] ∧ KeepsTree T s s₁ ∨
        ∃ P a k name path', madeIn (fsGetNode s 0 path) (some (s₁, x, err)) = [(P, a)] ∧ 0 ∉ name ∧
          name.length < MAX_FNAME ∧ creationParent s name path' = some (.ok, P) ∧
          Created T P a k name s s₁ := by
    rcases hout with ⟨-, herr, hkeeps⟩ | ⟨rfl, P, k, hparent, hcreated⟩
    · refine .inl ⟨?_, hkeeps⟩
      cases err with
      | ok => exact absurd rfl herr
      | nok | fileAlreadyExists => cases fsGetNode s 0 path <;> rfl
    · refine .inr ⟨P, x, k, name, path, ?_, hnul, hshort, hparent, hcreated⟩
      rw [(h.creationParent hparent).2.1]
      rfl
  cases op with
  | mkDir name path =>
    obtain ⟨⟨s₁, x, err⟩, hrun, rfl⟩ := Option.map_eq_some_iff.mp hstep
    rw [made, hrun]
    exact hmade hproper.1 hshort (h.mkDir_outcome hproper.1 hrun)
  | newRegFile name path =>
    obtain ⟨⟨s₁, x, err⟩, hrun, rfl⟩ := Option.map_eq_some_iff.mp hstep
    rw [made, hrun]
    exact hmade hproper.1 hshort (h.newRegFile_outcome hproper.1 hrun)
  | write | deleteNode => exact hcreates.elim

/-- A tree that creations with short names have built: each directory has its links, and then what the
log says was created in it. -/
structure LoggedTree (s : Ramfs) (T : Forest Nat) (log : List (Nat × Nat)) : Prop where
  tree : FileTree s T
  dots : DotsFirst s T
  names : NamesDistinct s T
  short : ∀ D, ∀ x ∈ T.childrenOf D, (s.node x).name.length < MAX_FNAME
  created : ∀ D ∈ T.nodes, (s.node D).type = .directory →
    (T.childrenOf D).drop 2 = createdIn D log
  parents : ∀ e ∈ log, e.1 ∈ T.nodes

theorem LoggedTree.keep {log : List (Nat × Nat)} (h : LoggedTree s T log) (hk : KeepsTree T s s') :
    LoggedTree s' T log where
  tree := h.tree.keep hk
  dots := h.dots.keep hk
  names := h.names.keep hk
  short := by
    intro D x hx
    rw [hk.node x (Forest.childrenOf_subset T hx)]
    exact h.short D x hx
  created := by
    intro D hD htype
    rw [hk.node D hD] at htype
    exact h.created D hD htype
  parents := h.parents

theorem LoggedTree.create {log : List (Nat × Nat)} {P a : Nat} {k : Forest Nat} {name path : List UInt8}
    (h : LoggedTree s T log) (hnul : 0 ∉ name) (hshort : name.length < MAX_FNAME)
    (hparent : creationParent s name path = some (.ok, P)) (hc : Created T P a k name s s') :
    LoggedTree s' (Forest.addChild P a k T) (log ++ [(P, a)]) := by
  have hfind := (h.tree.creationParent hparent).2.2.2
  have htree' := hc.toAttached.fileTree h.tree
  have hnew : ∀ y ∈ T.childrenOf P, (s.node y).name ≠ name.take MAX_FNAME := by
    intro y hy
    rw [List.take_of_length_le (Nat.le_of_lt hshort)]
    exact h.tree.name_ne hnul hshort hfind hy
  refine ⟨htree', hc.dotsFirst h.tree h.dots, hc.namesDistinct h.tree h.names hnew, ?_, ?_, ?_⟩
  · intro D x hx
    rcases hc.mem_childrenOf h.tree hx with hold | ⟨-, rfl⟩ | ⟨hD, -⟩
    · obtain ⟨next, hnext⟩ := hc.node (Forest.childrenOf_subset T hold)
      rw [hnext]
      exact h.short D x hold
    · rw [hc.nameEq, List.take_of_length_le (Nat.le_of_lt hshort)]
      exact hshort
    · obtain ⟨dot, dotdot, hlist, -, hdot, -, hdotdot⟩ := hc.new_directory h.tree
        (Forest.parent_mem hx) hD (htree'.parent_directory hx)
      rw [hlist] at hx
      simp only [List.mem_cons, List.not_mem_nil, or_false] at hx
      rcases hx with rfl | rfl
      · rw [hdot]
        decide
      · rw [hdotdot]
        decide
  · intro D hD htype
    rw [createdIn_append, createdIn_singleton]
    by_cases hold : D ∈ T.nodes
    · obtain ⟨next, hnext⟩ := hc.node hold
      rw [hnext] at htype
      obtain ⟨dot, dotdot, rest, hlist, -⟩ := h.dots D hold htype
      have hrest := h.created D hold htype
      rw [hlist] at hrest
      rw [hc.childrenOf h.tree hold, ← hrest, hlist]
      split
      · rfl
      · exact (List.append_nil _).symm
    · obtain ⟨dot, dotdot, hlist, -⟩ := hc.new_directory h.tree hD hold htype
      have hnone : createdIn D log = [] :=
        createdIn_eq_nil fun e he heq => hold (heq ▸ h.parents e he)
      rw [hlist, hnone, if_neg fun heq : D = P => hold (heq ▸ hc.parent)]
      rfl
  · intro e he
    rcases List.mem_append.mp he with hold | hlast
    · exact (hc.mem_nodes h.tree).mpr (.inl (h.parents e hold))
    · rw [List.mem_singleton.mp hlast]
      exact (hc.mem_nodes h.tree).mpr (.inl hc.parent)

/-- After `ramfs_init` nothing has been created. -/
theorem Boot.init_logged (h : Boot s) (hrun : ramfsInit s = some (s', .ok)) :
    ∃ T, LoggedTree s' T [] := by
  obtain ⟨c, u, htree, -, ⟨dotIno, hdot⟩, ⟨dotdotIno, hdotdot⟩⟩ := h.init_links hrun
  obtain ⟨T, htree', hdots, hnames⟩ := h.init hrun
  obtain rfl : T = .cons ROOT (linkPair c u) .nil :=
    htree'.spans.unique htree.spans
  refine ⟨_, htree, hdots, hnames, ?_, ?_, fun e he => absurd he List.not_mem_nil⟩
  · intro D x hx
    rcases (childrenOf_linkPair hx).2 with rfl | rfl
    · rw [hdot]
      exact (by decide : DOT_NAME.length < MAX_FNAME)
    · rw [hdotdot]
      exact (by decide : DOTDOT_NAME.length < MAX_FNAME)
  · intro D hD htype
    obtain ⟨dot, dotdot, rest, hlist, -⟩ := hdots D hD htype
    obtain ⟨rfl, -⟩ := childrenOf_linkPair (hlist ▸ List.mem_cons_self)
    rfl

/-- Along a run the log grows with the tree. -/
theorem LoggedTree.run {ops : List RamfsOp} {log : List (Nat × Nat)}
    (hops : ∀ op ∈ ops, op.Creates ∧ op.Proper ∧ op.ShortName) (h : LoggedTree s T log)
    (hrun : Run.run RamfsOp.step ops s = some s') :
    ∃ T', LoggedTree s' T' (log ++ creationLog ops s) := by
  induction ops generalizing s T log with
  | nil =>
    rw [creationLog, List.append_nil]
    exact ⟨T, Option.some.inj hrun ▸ h⟩
  | cons op ops ih =>
    obtain ⟨s₁, hstep, hrest⟩ := Run.run_cons_eq_some.mp hrun
    obtain ⟨hcreates, hproper, hshort⟩ := hops op List.mem_cons_self
    have hops' : ∀ op ∈ ops, op.Creates ∧ op.Proper ∧ op.ShortName :=
      fun op' hop => hops op' (List.mem_cons_of_mem _ hop)
    rw [creationLog, hstep, ← List.append_assoc]
    rcases RamfsOp.made_step hcreates hproper hshort h.tree hstep with ⟨hmade, hkeeps⟩ | hcreated
    · rw [hmade, List.append_nil]
      exact ih hops' (h.keep hkeeps) hrest
    · obtain ⟨P, a, k, name, path, hmade, hnul, hlen, hparent, hcreated⟩ := hcreated
      rw [hmade]
      exact ih hops' (h.create hnul hlen hparent hcreated) hrest

/-! ## Listing -/

theorem readdirLoop_seg {l : List Nat} {p : Nat} (hseg : Seg s.nextPtr 0 p l) (i : Nat) :
    readdirLoop s i p = (i - l.length, l.getD i 0) := by
  induction l generalizing p i with
  | nil =>
    obtain rfl : p = 0 := hseg
    cases i <;> rfl
  | cons a l ih =>
    obtain ⟨rfl, hp, hrest⟩ := hseg
    cases i with
    | zero =>
      rw [readdirLoop, Nat.zero_sub]
      rfl
    | succ i =>
      rw [readdirLoop, if_neg hp, List.length_cons, Nat.add_sub_add_right, List.getD_cons_succ]
      exact ih hrest i

/-- `ramfs_readdir` gives the entry at the index, or `NULL` behind the last one. -/
theorem FileTree.ramfsReaddir (h : FileTree s T) (hD : D ∈ T.nodes)
    (htype : (s.node D).type = .directory) (i : Nat) :
    ramfsReaddir s D i =
      match (T.childrenOf D)[i]? with
      | none => some (VFS_T_OK, none)
      | some x => (fillDirent (s.node x)).map fun entry => (VFS_T_OK, some entry) := by
  have hcallbacks := (h.kind D hD).callbacks
  have hopen : ¬ (D = 0 ∨ (s.node D).callbacks.readdirFn = false ∨ (s.node D).type ≠ .directory) := by
    rw [hcallbacks, htype]
    rintro (hzero | hfn | hne)
    · exact h.ne_zero hD hzero
    · exact Bool.noConfusion hfn
    · exact hne rfl
  rw [TalOS.ramfsReaddir, if_neg hopen, readdirLoop_seg (h.seg hD)]
  by_cases hzero : (s.node D).children = 0
  · rw [if_pos hzero, (h.children_eq_zero hD).mp hzero]
    rfl
  · rw [if_neg hzero]
    dsimp only
    rcases Nat.lt_or_ge i (T.childrenOf D).length with hlt | hge
    · have hx : (T.childrenOf D).getD i 0 = (T.childrenOf D)[i] := List.getD_eq_getElem _ _ hlt
      have hne : (T.childrenOf D)[i] ≠ 0 := h.ne_zero (Forest.childrenOf_subset T (List.getElem_mem hlt))
      rw [hx, List.getElem?_eq_getElem hlt, if_neg]
      rintro (hsub | hnull)
      · exact hsub (Nat.sub_eq_zero_of_le (Nat.le_of_lt hlt))
      · exact hne hnull
    · rw [List.getElem?_eq_none hge, if_pos (.inr (List.getD_eq_default _ _ hge))]

theorem fillDirent_of_short {n : RamfsFileHeader} (h : n.name.length < MAX_FNAME) :
    ∃ e, fillDirent n = some e ∧ e.dIno = n.ino ∧ e.dType = n.type ∧ e.dName = n.name := by
  rw [fillDirent, strncpy, decide_eq_true h]
  exact ⟨_, rfl, rfl, rfl, List.take_of_length_le (Nat.le_of_lt h)⟩

/-- Reading a directory, through a link or not, yields its entries in order and then nothing; each is
what its name is looked up to, and what is looked up is among them. -/
structure Enumerates (s : Ramfs) (D : Nat) (entries : List Nat) : Prop where
  listed : Entries s D entries
  once : entries.Nodup
  yields : ∀ y, vfsNodeFromSimlink s POINTERS y = some D → ∀ i x, entries[i]? = some x →
    ∃ e, fsReaddir s y i = some (VFS_T_OK, some e) ∧ e.dIno = (s.node x).ino ∧
      e.dType = (s.node x).type ∧ e.dName = (s.node x).name ∧ fsFind s D e.dName = some x
  ends : ∀ y, vfsNodeFromSimlink s POINTERS y = some D → ∀ i, entries.length ≤ i →
    fsReaddir s y i = some (VFS_T_OK, none)
  found : ∀ name x, 0 ∉ name → fsFind s D name = some x → x ≠ 0 →
    ∃ i e, entries[i]? = some x ∧ fsReaddir s D i = some (VFS_T_OK, some e) ∧ e.dName = name

/-- An entry with a short name is what its name is looked up to. -/
theorem FileTree.findIn_name (h : FileTree s T) (hnames : NamesDistinct s T)
    (hx : x ∈ T.childrenOf D) (hshort : (s.node x).name.length < MAX_FNAME) :
    findIn s T D (s.node x).name = x := by
  have hnul := h.name_nul hx
  have hself : named s (s.node x).name x = true := (named_short hshort hnul hnul).mpr rfl
  rw [findIn_dir (h.parent_directory hx)]
  rcases childNamed_cases s T D (s.node x).name with ⟨-, hnone⟩ | ⟨hmem, hnamed⟩
  · rw [hnone x hx] at hself
    cases hself
  · generalize childNamed s T D (s.node x).name = z at hmem hnamed ⊢
    have hname : (s.node x).name = (s.node z).name := by
      rcases Nat.lt_or_eq_of_le (h.name_length hmem) with hlt | hfull
      · exact (named_short hlt (h.name_nul hmem) hnul).mp hnamed
      · have htake := ((named_long hfull (h.name_nul hmem)).mp hnamed).1
        rwa [List.take_of_length_le (Nat.le_of_lt hshort)] at htake
    exact List.inj_on_of_nodup_map (hnames D) hmem hx hname.symm

theorem LoggedTree.enumerates {log : List (Nat × Nat)} (h : LoggedTree s T log) (hD : D ∈ T.nodes)
    (htype : (s.node D).type = .directory) : Enumerates s D (T.childrenOf D) := by
  have hcallbacks : (s.node D).callbacks.readdirFn = true := by
    rw [(h.tree.kind D hD).callbacks, htype]
    rfl
  have hread {y : Nat} (hy : TalOS.vfsNodeFromSimlink s POINTERS y = some D) (i : Nat) :
      fsReaddir s y i = TalOS.ramfsReaddir s D i := by
    rw [fsReaddir, hy, Option.bind_some, if_pos hcallbacks]
  have hself : TalOS.vfsNodeFromSimlink s POINTERS D = some D := by
    rw [h.tree.vfsNodeFromSimlink hD, resolve_dir htype]
  have hyields {y : Nat} (hy : TalOS.vfsNodeFromSimlink s POINTERS y = some D) {i x : Nat}
      (hi : (T.childrenOf D)[i]? = some x) :
      ∃ e, fsReaddir s y i = some (VFS_T_OK, some e) ∧ e.dIno = (s.node x).ino ∧
        e.dType = (s.node x).type ∧ e.dName = (s.node x).name := by
    have hshort := h.short D x (List.mem_of_getElem? hi)
    obtain ⟨e, hfill, hentry⟩ := fillDirent_of_short hshort
    refine ⟨e, ?_, hentry⟩
    rw [hread hy, h.tree.ramfsReaddir hD htype, hi]
    dsimp only
    rw [hfill]
    rfl
  refine ⟨h.tree.seg hD, Forest.nodup_childrenOf h.tree.once, ?_, ?_, ?_⟩
  · intro y hy i x hi
    have hx := List.mem_of_getElem? hi
    obtain ⟨e, hrun, hino, hkind, hname⟩ := hyields hy hi
    refine ⟨e, hrun, hino, hkind, hname, ?_⟩
    rw [hname, h.tree.fsFind hD, h.tree.findIn_name h.names hx (h.short D x hx)]
  · intro y hy i hi
    rw [hread hy, h.tree.ramfsReaddir hD htype, List.getElem?_eq_none hi]
  · intro name x hnul hfind hx
    rw [h.tree.fsFind hD] at hfind
    obtain rfl := Option.some.inj hfind
    obtain ⟨-, -, hmem, hnamed⟩ := findIn_ne_zero hx
    rw [resolve_dir htype] at hmem
    obtain ⟨i, hi⟩ := List.mem_iff_getElem?.mp hmem
    obtain ⟨e, hrun, -, -, hname⟩ := hyields hself hi
    refine ⟨i, e, hi, hrun, ?_⟩
    rw [hname]
    exact ((named_short (h.short D _ hmem) (h.tree.name_nul hmem) hnul).mp hnamed).symm

/-- In every state that creations with short names have built, reading any directory lists its two links
and what was created in it, in order, exactly as lookups find it. -/
theorem creations_enumerate (s₀ : Ramfs) (ops : List RamfsOp) (s : Ramfs) (hboot : Boot s₀)
    (hops : ∀ op ∈ ops, op.Creates ∧ op.Proper ∧ op.ShortName) (hrun : ramfsRun s₀ ops = some s) :
    ∃ T, FileTree s T ∧ ∀ D ∈ T.nodes, (s.node D).type = .directory → ∃ dot dotdot,
      (s.node dot).name = DOT_NAME ∧ (s.node dotdot).name = DOTDOT_NAME ∧
        Enumerates s D (dot :: dotdot :: createdIn D (ramfsLog s₀ ops)) := by
  obtain ⟨s₁, hinit, hrun⟩ := ramfsInit_bind_eq_some hrun
  obtain ⟨T₁, hfirst⟩ := hboot.init_logged hinit
  obtain ⟨T, h⟩ := hfirst.run hops hrun
  refine ⟨T, h.tree, fun D hD htype => ?_⟩
  obtain ⟨dot, dotdot, rest, hlist, -, hdot, -, hdotdot⟩ := h.dots D hD htype
  have hcreated := h.created D hD htype
  have hall := h.enumerates hD htype
  rw [hlist] at hcreated hall
  refine ⟨dot, dotdot, hdot, hdotdot, ?_⟩
  rw [ramfsLog, hinit]
  exact hcreated ▸ hall

/-- A directory `a` with a file `b`. -/
theorem creations_enumerate_two :
    ∃ s T, ramfsRun bootRamfs [.mkDir [0x61] [SLASH], .newRegFile [0x62] [SLASH, 0x61]] = some s ∧
      FileTree s T ∧ ∀ D ∈ T.nodes, (s.node D).type = .directory → ∃ dot dotdot,
        (s.node dot).name = DOT_NAME ∧ (s.node dotdot).name = DOTDOT_NAME ∧
          Enumerates s D (dot :: dotdot :: createdIn D (ramfsLog bootRamfs
            [.mkDir [0x61] [SLASH], .newRegFile [0x62] [SLASH, 0x61]])) := by
  have hsome : (ramfsRun bootRamfs
      [.mkDir [0x61] [SLASH], .newRegFile [0x62] [SLASH, 0x61]]).isSome = true := by
    decide +kernel
  obtain ⟨s, hs⟩ := Option.isSome_iff_exists.mp hsome
  obtain ⟨T, h⟩ := creations_enumerate bootRamfs _ s bootRamfs_boot (by decide) hs
  exact ⟨s, T, hs, h⟩

end TalOS
