-- SUMMARY: The invariant of the file tree, and which calls keep it.
import TalOS.Coresys.Deletion

/-!
# The invariant of the file tree

Every run keeps a file tree. That every directory starts with its links and that
names differ is kept as long as no link is deleted and no name is cut to that of
another entry.
-/

namespace TalOS

open Forest (Seg)

variable {s s' : Ramfs} {T : Forest Nat}

/-! ## Single calls -/

/-- What a write leaves alone: of the nodes it changes contents only, and of the heap neither of its ends. -/
structure WriteKeeps (s s' : Ramfs) : Prop where
  root : s'.root = s.root
  heap : s'.heap.Ok
  limit : s'.heap.limit = s.heap.limit
  grow : s.heap.currentPointer ≤ s'.heap.currentPointer
  node : ∀ x, ∃ length filePtr, s'.node x = { s.node x with length := length, filePtr := filePtr }

theorem ramfsWrite_keeps (hok : s.heap.Ok) {node offset : Nat} {buf : List UInt8} {n : Int}
    (hrun : ramfsWrite s node buf offset = some (s', n)) : WriteKeeps s s' := by
  unfold ramfsWrite at hrun
  split at hrun
  · obtain ⟨rfl, -⟩ : s = s' ∧ (-1 : Int) = n := by simpa using hrun
    exact ⟨rfl, hok, rfl, Nat.le_refl _, fun x => ⟨_, _, rfl⟩⟩
  · next hfile =>
    have hne : node ≠ 0 := fun hzero => hfile (.inl hzero)
    dsimp only at hrun
    split at hrun
    · next hgrow =>
      have hsize := Nat.zero_lt_of_lt hgrow
      have hfail := krealloc_zero hok (s.node node).filePtr hsize
      have hfits := krealloc_inside hok (s.node node).filePtr hsize
      have hkept := krealloc_room hok (s.node node).filePtr hsize
      generalize krealloc s.heap (s.node node).filePtr (MachineInt.u32 (buf.length + offset)) = r
        at hrun hfail hfits hkept
      split at hrun
      · next hzero =>
        obtain ⟨rfl, -⟩ := Prod.mk.inj (Option.some.inj hrun)
        obtain ⟨mem, freed, hheap⟩ := hfail hzero
        rw [hheap]
        exact ⟨rfl, ⟨hok.start, hok.above, hok.below, hok.high⟩, rfl, Nat.le_refl _, fun x => ⟨_, _, rfl⟩⟩
      · next hblock =>
        split at hrun
        · cases hrun
        · next hin =>
          rw [not_or, Nat.not_lt, Nat.not_lt] at hin
          obtain ⟨hheap, hlimit, hptr⟩ := hkept (hfits hblock hin.2)
          rw [update_eq hne, Option.map_some] at hrun
          obtain ⟨rfl, -⟩ := Prod.mk.inj (Option.some.inj hrun)
          refine ⟨rfl, ⟨hheap.start, hheap.above, hheap.below, hheap.high⟩, hlimit, hptr, fun x => ?_⟩
          by_cases heq : x = node
          · subst heq
            exact ⟨_, _, setNode_self _⟩
          · exact ⟨_, _, setNode_ne _ heq⟩
    · split at hrun
      · cases hrun
      · obtain ⟨rfl, -⟩ := Prod.mk.inj (Option.some.inj hrun)
        exact ⟨rfl, ⟨hok.start, hok.above, hok.below, hok.high⟩, rfl, Nat.le_refl _, fun x => ⟨_, _, rfl⟩⟩

/-- A write changes no node but the file, and there only its contents. -/
theorem FileTree.write_alike (h : FileTree s T) {node offset : Nat} {buf : List UInt8} {n : Int}
    (hrun : ramfsWrite s node buf offset = some (s', n)) : Alike T s s' := by
  have hkeeps := ramfsWrite_keeps h.heap hrun
  exact ⟨hkeeps.root, fun x _ => hkeeps.node x, hkeeps.heap, hkeeps.grow⟩

/-- What a call does to a file tree: it changes the contents of a file at most, it adds a node, or it
takes one out. -/
theorem RamfsOp.step_cases {op : RamfsOp} (hproper : op.Proper) (h : FileTree s T)
    (hstep : op.step s = some s') :
    Alike T s s' ∨
      (∃ P a k name path, (op = .mkDir name path ∨ op = .newRegFile name path) ∧
        creationParent s name path = some (.ok, P) ∧ Created T P a k name s s') ∨
      ∃ path D x s₁ nodes, op = .deleteNode path ∧ fsGetNode s 0 path = some x ∧ x ≠ 0 ∧
        Unlinked T D x s s₁ ∧ s' = s₁.freed nodes := by
  cases op with
  | mkDir name path =>
    have hcreates : (RamfsOp.mkDir name path).Creates := trivial
    exact (RamfsOp.creation_step hcreates hproper h hstep).imp KeepsTree.alike .inl
  | newRegFile name path =>
    have hcreates : (RamfsOp.newRegFile name path).Creates := trivial
    exact (RamfsOp.creation_step hcreates hproper h hstep).imp KeepsTree.alike .inl
  | write path buf offset =>
    obtain ⟨node, hget, hwrite⟩ := Option.bind_eq_some_iff.mp hstep
    obtain ⟨⟨s₁, n⟩, hrun, rfl⟩ := Option.map_eq_some_iff.mp hwrite
    exact .inl (h.write_alike hrun)
  | deleteNode path =>
    obtain ⟨⟨s₁, err⟩, hrun, rfl⟩ := Option.map_eq_some_iff.mp hstep
    rcases h.deleteNode_outcome hrun with ⟨rfl, -⟩ | ⟨D, x, s₂, nodes, hget, hx, hunlinked, rfl, -⟩
    · exact .inl (KeepsTree.refl h.heap).alike
    · exact .inr (.inr ⟨path, D, x, s₂, nodes, rfl, hget, hx, hunlinked, rfl⟩)

/-- Every call keeps the file tree. -/
theorem RamfsOp.fileTree_step {op : RamfsOp} (hproper : op.Proper) (h : FileTree s T)
    (hstep : op.step s = some s') : ∃ T', FileTree s' T' := by
  rcases RamfsOp.step_cases hproper h hstep with halike | hcreated | hdeleted
  · exact ⟨T, h.alike halike⟩
  · obtain ⟨P, a, k, name, path, -, -, hcreated⟩ := hcreated
    exact ⟨_, hcreated.toAttached.fileTree h⟩
  · obtain ⟨path, D, x, s₁, nodes, -, -, -, hunlinked, rfl⟩ := hdeleted
    exact ⟨_, (hunlinked.fileTree h).freed nodes⟩

theorem ramfsRun_fileTree {s₀ : Ramfs} (hboot : Boot s₀) {ops : List RamfsOp}
    (hops : ∀ op ∈ ops, op.Proper) (hrun : ramfsRun s₀ ops = some s) : ∃ T, FileTree s T :=
  ramfsRun_preserves (I := FileTree) (fun _ _ h _ _ => h)
    (fun _ _ _ _ hproper h hop => RamfsOp.fileTree_step hproper h hop) hboot
    (fun r _ => .of_forall hops r.1) hrun

/-! ## Names in a directory -/

/-- What a link's name is, and what other names are: a string that fits its array. -/
theorem FileTree.name_fits {D y : Nat} (h : FileTree s T) (hy : y ∈ T.childrenOf D) :
    0 ∉ (s.node y).name ∧ (s.node y).name.length ≤ MAX_FNAME := by
  by_cases htype : (s.node y).type = .symlink
  · rcases h.links D y hy htype with ⟨hname, -⟩ | ⟨hname, -⟩
    · rw [hname]
      decide
    · rw [hname]
      decide
  · exact ⟨(h.names D y hy htype).nul, (h.names D y hy htype).length⟩

theorem FileTree.name_nul {D y : Nat} (h : FileTree s T) (hy : y ∈ T.childrenOf D) : 0 ∉ (s.node y).name :=
  (h.name_fits hy).1

theorem FileTree.name_length {D y : Nat} (h : FileTree s T) (hy : y ∈ T.childrenOf D) :
    (s.node y).name.length ≤ MAX_FNAME :=
  (h.name_fits hy).2

/-- A short name that is not found is the name of no entry. -/
theorem FileTree.name_ne {P y : Nat} {name : List UInt8} (h : FileTree s T) (hnul : 0 ∉ name)
    (hshort : name.length < MAX_FNAME) (hfind : findIn s T P name = 0) (hy : y ∈ T.childrenOf P) :
    (s.node y).name ≠ name := by
  intro hname
  have hdir := h.parent_directory hy
  rw [findIn_dir hdir] at hfind
  rcases childNamed_cases s T P name with ⟨-, hnone⟩ | ⟨hmem, -⟩
  · have hnamed := (named_short (hname ▸ hshort) (h.name_nul hy) hnul).mpr hname.symm
    rw [hnone y hy] at hnamed
    cases hnamed
  · rw [hfind] at hmem
    exact h.ne_zero (Forest.childrenOf_subset T hmem) rfl

/-! ## The invariant -/

/-- `x` is a link with a name to a node. -/
def IsLink (s : Ramfs) (x : Nat) (name : List UInt8) (target : Nat) : Prop :=
  (s.node x).type = .symlink ∧ (s.node x).name = name ∧ (s.node x).nodePtr = target

/-- The pointers of the state make a tree `T` of the nodes below the root, in which only directories
have children, every directory starts with its two links, the names in a directory differ, every
node but the root is in one list once, and every link leads to a directory of the tree. -/
structure TreeInvariant (s : Ramfs) (T : Forest Nat) : Prop where
  root : s.root = ROOT
  top : T.roots = [ROOT]
  spans : T.Spans s.childPtr s.nextPtr 0 ROOT
  leaves : ∀ x ∈ T.nodes, T.childrenOf x ≠ [] → (s.node x).type = .directory
  dots : ∀ D ∈ T.nodes, (s.node D).type = .directory → ∃ dot dotdot rest P,
    T.childrenOf D = dot :: dotdot :: rest ∧ IsLink s dot DOT_NAME D ∧
      IsLink s dotdot DOTDOT_NAME P ∧ IsParent T D P
  names : ∀ D ∈ T.nodes, ((T.childrenOf D).map fun x => (s.node x).name).Nodup
  once : ∀ x ∈ T.nodes, x ≠ ROOT → ∃! D, x ∈ T.childrenOf D
  nodup : ∀ D ∈ T.nodes, (T.childrenOf D).Nodup
  links : ∀ x ∈ T.nodes, (s.node x).type = .symlink →
    (s.node x).nodePtr ∈ T.nodes ∧ (s.node (s.node x).nodePtr).type = .directory

theorem FileTree.treeInvariant (h : FileTree s T) (hdots : DotsFirst s T) (hnames : NamesDistinct s T) :
    TreeInvariant s T := by
  refine ⟨h.root, h.top, h.spans, ?_, ?_, fun D _ => hnames D, ?_,
    fun D _ => Forest.nodup_childrenOf h.once, fun x hx htype => h.link_target hx htype⟩
  · intro x _ hchildren
    obtain ⟨y, hy⟩ := List.exists_mem_of_ne_nil _ hchildren
    exact h.parent_directory hy
  · intro D hD hdir
    obtain ⟨dot, dotdot, rest, hlist, htype₁, hdot, htype₂, hdotdot⟩ := hdots D hD hdir
    have hmem₁ : dot ∈ T.childrenOf D := hlist ▸ List.mem_cons_self
    have hmem₂ : dotdot ∈ T.childrenOf D := hlist ▸ List.mem_cons_of_mem _ List.mem_cons_self
    have hself : (s.node dot).nodePtr = D := by
      rcases h.links D dot hmem₁ htype₁ with ⟨-, hptr⟩ | ⟨hname, -⟩
      · exact hptr
      · rw [hdot] at hname
        exact absurd hname (by decide)
    have hparent : IsParent T D (s.node dotdot).nodePtr := by
      rcases h.links D dotdot hmem₂ htype₂ with ⟨hname, -⟩ | ⟨-, hup⟩
      · rw [hdotdot] at hname
        exact absurd hname (by decide)
      · exact hup
    exact ⟨dot, dotdot, rest, _, hlist, ⟨htype₁, hdot, hself⟩, ⟨htype₂, hdotdot, rfl⟩, hparent⟩
  · intro x hx hroot
    obtain ⟨D, hD⟩ := h.exists_parent hx hroot
    exact ⟨D, hD, fun E hE => Forest.parent_unique h.once hE hD⟩

/-- A call that keeps the invariant: the name it creates is not cut to that of an entry, and what it
deletes is no link. -/
def RamfsOp.Orderly : RamfsOp → Ramfs → Prop
  | .mkDir name path, s | .newRegFile name path, s =>
    name.length < MAX_FNAME ∨ ∀ P entries, fsGetNode s 0 path = some P →
      Seg s.nextPtr 0 (s.node P).children entries →
      ∀ y ∈ entries, (s.node y).name ≠ name.take MAX_FNAME
  | .write .., _ => True
  | .deleteNode path, s =>
    ∀ x, fsGetNode s 0 path = some x → x ≠ 0 → (s.node x).type ≠ .symlink

/-- An orderly creation gives no entry the name of another. -/
theorem RamfsOp.Orderly.names {op : RamfsOp} (horderly : op.Orderly s) (hproper : op.Proper)
    (h : FileTree s T) {name path : List UInt8} {P : Nat}
    (hop : op = .mkDir name path ∨ op = .newRegFile name path)
    (hparent : creationParent s name path = some (.ok, P)) :
    ∀ y ∈ T.childrenOf P, (s.node y).name ≠ name.take MAX_FNAME := by
  obtain ⟨-, hget, hP, hfind⟩ := h.creationParent hparent
  have hargs : 0 ∉ name ∧ (name.length < MAX_FNAME ∨ ∀ P entries, fsGetNode s 0 path = some P →
      Seg s.nextPtr 0 (s.node P).children entries →
      ∀ y ∈ entries, (s.node y).name ≠ name.take MAX_FNAME) := by
    rcases hop with rfl | rfl
    · exact ⟨hproper.1, horderly⟩
    · exact ⟨hproper.1, horderly⟩
  obtain ⟨hnul, hshort | hdiffer⟩ := hargs
  · intro y hy
    rw [List.take_of_length_le (Nat.le_of_lt hshort)]
    exact h.name_ne hnul hshort hfind hy
  · exact hdiffer P _ hget (h.seg hP)

/-- What a call does to an ordered tree. -/
theorem RamfsOp.ordered_step {op : RamfsOp} (hproper : op.Proper) (horderly : op.Orderly s)
    (h : FileTree s T) (hdots : DotsFirst s T) (hnames : NamesDistinct s T)
    (hstep : op.step s = some s') :
    ∃ T', FileTree s' T' ∧ DotsFirst s' T' ∧ NamesDistinct s' T' := by
  rcases RamfsOp.step_cases hproper h hstep with halike | hcreated | hdeleted
  · exact ⟨T, h.alike halike, hdots.alike halike, hnames.alike halike⟩
  · obtain ⟨P, a, k, name, path, hop, hparent, hcreated⟩ := hcreated
    exact ⟨_, hcreated.toAttached.fileTree h, hcreated.dotsFirst h hdots,
      hcreated.namesDistinct h hnames (horderly.names hproper h hop hparent)⟩
  · obtain ⟨path, D, x, s₁, nodes, rfl, hget, hx, hunlinked, rfl⟩ := hdeleted
    have htype : (s.node x).type ≠ .symlink := horderly x hget hx
    have halike := ((hunlinked.fileTree h).freed_keeps nodes).alike
    exact ⟨T.remove x, (hunlinked.fileTree h).alike halike, (hunlinked.dotsFirst h hdots htype).alike halike,
      (hunlinked.namesDistinct h hnames).alike halike⟩

/-- Every run of orderly calls keeps the invariant of the file tree. -/
theorem ramfsRun_treeInvariant (s₀ : Ramfs) (ops : List RamfsOp) (s : Ramfs) (hboot : Boot s₀)
    (hops : ∀ r, ramfsInit s₀ = some r →
      Run.Along RamfsOp.step (fun op s => op.Proper ∧ op.Orderly s) ops r.1)
    (hrun : ramfsRun s₀ ops = some s) : ∃ T, TreeInvariant s T := by
  obtain ⟨T, h, hdots, hnames⟩ := ramfsRun_preserves
    (I := fun s T => FileTree s T ∧ DotsFirst s T ∧ NamesDistinct s T)
    (fun s T h hdots hnames => ⟨h, hdots, hnames⟩)
    (fun op s s' T hcond hI hop =>
      RamfsOp.ordered_step hcond.1 hcond.2 hI.1 hI.2.1 hI.2.2 hop) hboot hops hrun
  exact ⟨T, h.treeInvariant hdots hnames⟩

/-- A file is made, gets three bytes, and is deleted. -/
theorem ramfsRun_treeInvariant_made_and_deleted :
    ∃ s T, ramfsRun bootRamfs [.newRegFile [0x62] [SLASH], .write [SLASH, 0x62] [1, 2, 3] 0,
      .deleteNode [SLASH, 0x62]] = some s ∧ TreeInvariant s T := by
  have hfile : (ramfsInit bootRamfs).all (fun r =>
      (RamfsOp.step (.newRegFile [0x62] [SLASH]) r.1).all fun s =>
        (RamfsOp.step (.write [SLASH, 0x62] [1, 2, 3] 0) s).all fun s =>
          (fsGetNode s 0 [SLASH, 0x62]).all fun x => (s.node x).type ≠ .symlink) = true := by
    decide +kernel
  have hops (r : Ramfs × RfsErr) (hr : ramfsInit bootRamfs = some r) :
      Run.Along RamfsOp.step (fun op s => op.Proper ∧ op.Orderly s)
        [.newRegFile [0x62] [SLASH], .write [SLASH, 0x62] [1, 2, 3] 0, .deleteNode [SLASH, 0x62]]
        r.1 := by
    refine ⟨⟨by decide, .inl (by decide)⟩, fun s₁ h₁ => ⟨⟨by decide, trivial⟩,
      fun s₂ h₂ => ⟨⟨by decide, fun x hx _ => ?_⟩, fun _ _ => trivial⟩⟩⟩
    rw [hr, Option.all_some, h₁, Option.all_some, h₂, Option.all_some, hx, Option.all_some,
      decide_eq_true_eq] at hfile
    exact hfile
  have hsome : (ramfsRun bootRamfs [.newRegFile [0x62] [SLASH], .write [SLASH, 0x62] [1, 2, 3] 0,
      .deleteNode [SLASH, 0x62]]).isSome = true := by
    decide +kernel
  obtain ⟨s, hs⟩ := Option.isSome_iff_exists.mp hsome
  obtain ⟨T, h⟩ := ramfsRun_treeInvariant bootRamfs _ s bootRamfs_boot hops hs
  exact ⟨s, T, hs, h⟩

/-- Deleting the link `.` of the root directory leaves `..` in front. -/
theorem ramfsRun_deletes_link :
    ∃ s, ramfsRun bootRamfs [.deleteNode [SLASH, 0x2e]] = some s ∧ ¬ ∃ T, TreeInvariant s T := by
  have hrun : (ramfsRun bootRamfs [.deleteNode [SLASH, 0x2e]]).any (fun s =>
      (s.node ROOT).type = .directory && (s.node (s.node ROOT).children).name = DOTDOT_NAME) = true := by
    decide +kernel
  obtain ⟨s, hs, hcheck⟩ := (Option.any_eq_true ..).mp hrun
  simp only [Bool.and_eq_true, decide_eq_true_eq] at hcheck
  refine ⟨s, hs, ?_⟩
  rintro ⟨T, h⟩
  have hroot : ROOT ∈ T.nodes := T.roots_subset_nodes (h.top ▸ List.mem_cons_self)
  obtain ⟨dot, dotdot, rest, P, hlist, ⟨-, hdot, -⟩, -⟩ := h.dots ROOT hroot hcheck.1
  have hseg := h.spans.seg_childrenOf hroot
  rw [hlist] at hseg
  have hfirst : (s.node ROOT).children = dot := hseg.1
  rw [hfirst, hdot] at hcheck
  exact absurd hcheck.2 (by decide)

end TalOS
