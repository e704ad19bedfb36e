-- SUMMARY: Which parent paths the two creation calls accept, and where they follow a `NULL` list instead.
import TalOS.Coresys.CreatedEntries

/-!
# Parent paths

`ramfs_mkDir` and `ramfs_newRegFile` look for an existing entry through a link at the
end of the parent path, and in a node that is no directory find none. They append to
the node itself, whose list of children must not be `NULL`.
-/

namespace TalOS

open Forest

variable {s s' : Ramfs} {T : Forest Nat} {P D y : Nat} {name path : List UInt8}

/-- The entries of a directory, in their order. -/
def Entries (s : Ramfs) (D : Nat) (l : List Nat) : Prop := Seg s.nextPtr 0 (s.node D).children l

/-- A path leads to a directory, once a link at its end is followed. -/
def LeadsTo (s : Ramfs) (path : List UInt8) (D : Nat) : Prop :=
  ∃ y, fsGetNode s 0 path = some y ∧ vfsNodeFromSimlink s POINTERS y = some D ∧
    (s.node D).type = .directory

/-- What a creation should do with any path: make a new last entry of the directory, if it leads to one
without an entry of that name; change nothing, if it leads to none; and in any case return. -/
def CreatesOrRefuses (create : Ramfs → List UInt8 → List UInt8 → Option (Ramfs × Nat × RfsErr))
    (s : Ramfs) (name path : List UInt8) : Prop :=
  ∃ s' x err, create s name path = some (s', x, err) ∧
    (∀ D l, LeadsTo s path D → Entries s D l → (∀ y ∈ l, (s.node y).name ≠ name) →
      err = .ok ∧ s.heap.currentPointer ≤ x ∧ (s'.node x).name = name ∧ Entries s' D (l ++ [x])) ∧
    ((∀ D, ¬ LeadsTo s path D) → x = 0 ∧ err = .nok ∧ s' = s)

/-- The path leads to nothing, or to a node with such an entry behind a link at most, or to a directory
itself that has children. -/
def AppendsOrFinds (s : Ramfs) (name path : List UInt8) : Prop :=
  ∃ y, fsGetNode s 0 path = some y ∧
    (y = 0 ∨ fsFind s y name ≠ some 0 ∨ (s.node y).type = .directory ∧ (s.node y).children ≠ 0)

/-! ## Where a path leads -/

theorem FileTree.leadsTo_iff (h : FileTree s T) (hget : TalOS.fsGetNode s 0 path = some y)
    (hy : y ∈ T.nodes) : LeadsTo s path D ↔ D = resolve s y ∧ (s.node D).type = .directory := by
  have hlinks : TalOS.vfsNodeFromSimlink s POINTERS y = some (resolve s y) := h.vfsNodeFromSimlink hy
  constructor
  · rintro ⟨z, hz, hD, htype⟩
    obtain rfl : y = z := Option.some.inj (hget.symm.trans hz)
    exact ⟨Option.some.inj (hD.symm.trans hlinks), htype⟩
  · rintro ⟨rfl, htype⟩
    exact ⟨y, hget, hlinks, htype⟩

theorem not_leadsTo_zero (hget : fsGetNode s 0 path = some 0) : ¬ LeadsTo s path D := by
  rintro ⟨y, hy, hlinks, -⟩
  obtain rfl : 0 = y := Option.some.inj (hget.symm.trans hy)
  cases hlinks

/-- A short name is not found exactly if no entry has it. -/
theorem FileTree.findIn_eq_zero_iff (h : FileTree s T) (hD : (s.node D).type = .directory)
    (hnul : 0 ∉ name) (hshort : name.length < MAX_FNAME) :
    findIn s T D name = 0 ↔ ∀ y ∈ T.childrenOf D, (s.node y).name ≠ name := by
  constructor
  · exact fun hfind y hy => h.name_ne hnul hshort hfind hy
  · intro hnone
    by_contra hfound
    obtain ⟨-, -, hmem, hnamed⟩ := findIn_ne_zero hfound
    rw [resolve_dir hD] at hmem
    generalize findIn s T D name = x at hmem hnamed
    refine hnone x hmem ?_
    rcases Nat.lt_or_eq_of_le (h.name_length hmem) with hlt | hfull
    · exact ((named_short hlt (h.name_nul hmem) hnul).mp hnamed).symm
    · have htake := ((named_long hfull (h.name_nul hmem)).mp hnamed).1
      rw [List.take_of_length_le (Nat.le_of_lt hshort)] at htake
      exact htake.symm

/-- A node can be appended exactly where the list of children is not `NULL`. -/
theorem FileTree.appendChild_isSome (h : FileTree s T) (hP : P ∈ T.nodes) (a : Nat) :
    (appendChild s P a).isSome ↔ (s.node P).children ≠ 0 := by
  rw [Ne, h.children_eq_zero hP]
  rcases List.eq_nil_or_concat (T.childrenOf P) with hnil | ⟨pre, last, hlist⟩
  · rw [h.appendChild_of_nil hP hnil]
    exact iff_of_false Bool.noConfusion (not_not_intro hnil)
  · rw [List.concat_eq_append] at hlist
    rw [h.appendChild_of_concat hP hlist, hlist]
    exact iff_of_true rfl (List.append_ne_nil_of_right_ne_nil _ (List.cons_ne_nil _ _))

/-! ## The two calls -/

/-- What both calls are once the checks have passed: new nodes, and then an append to the node at the
end of the path. -/
structure AppendsTo (create : Ramfs → List UInt8 → List UInt8 → Option (Ramfs × Nat × RfsErr))
    (s : Ramfs) (name path : List UInt8) : Prop where
  refused : ∀ err P, creationParent s name path = some (err, P) → err ≠ .ok →
    create s name path = some (s, 0, err)
  accepted : ∀ P, creationParent s name path = some (.ok, P) →
    ∃ s₁ x k, Sprout s s₁ P x k ∧ (s₁.node x).name = name ∧
      create s name path = (appendChild s₁ P x).map fun s => (s, x, .ok)

theorem FileTree.mkDir_appendsTo (h : FileTree s T) (hcheck : fsCheckFileName name = true)
    (hnul : 0 ∉ name) (hshort : name.length < MAX_FNAME)
    (hroom : s.heap.currentPointer + 3 * SIZEOF_NODE ≤ s.heap.limit) :
    AppendsTo ramfsMkDir s name path where
  refused := fun _ _ => ramfsMkDir_refused
  accepted := by
    intro P hparent
    rcases ramfsMkDir_cases h.heap hparent with ⟨s₁, k, hk, -, hnone⟩ | ⟨-, s₇, d, hnew, hrun⟩
    · have hfull := hnone.full
      have hle : (k + 1) * SIZEOF_NODE ≤ 3 * SIZEOF_NODE := Nat.mul_le_mul_right _ hk
      omega
    · refine ⟨s₇, d, _, hnew.sprout (fileName_of_check hcheck hnul), ?_, hrun⟩
      rw [hnew.dir]
      exact List.take_of_length_le (Nat.le_of_lt hshort)

theorem FileTree.newRegFile_appendsTo (h : FileTree s T) (hcheck : fsCheckFileName name = true)
    (hnul : 0 ∉ name) (hshort : name.length < MAX_FNAME)
    (hroom : s.heap.currentPointer + SIZEOF_NODE ≤ s.heap.limit) :
    AppendsTo ramfsNewRegFile s name path where
  refused := fun _ _ => ramfsNewRegFile_refused
  accepted := by
    intro P hparent
    rcases h.newRegFile_cases hparent with ⟨hfull, -⟩ | ⟨-, s₁, x, hfresh, hrun⟩
    · exact absurd hroom (Nat.not_le.mpr hfull)
    · refine ⟨_, x, _, hfresh.sprout (fileName_of_check hcheck hnul) P, ?_, hrun⟩
      rw [setNode_self]
      exact List.take_of_length_le (Nat.le_of_lt hshort)

section Call

variable {create : Ramfs → List UInt8 → List UInt8 → Option (Ramfs × Nat × RfsErr)}
  (hcreate : AppendsTo create s name path) (hcheck : fsCheckFileName name = true)
include hcreate hcheck

/-- A path that leads nowhere is refused. -/
theorem AppendsTo.refuses_nowhere (hget : TalOS.fsGetNode s 0 path = some 0) :
    CreatesOrRefuses create s name path := by
  have hparent : TalOS.creationParent s name path = some (.nok, 0) := by
    rw [TalOS.creationParent, if_neg (by rw [hcheck]; exact Bool.noConfusion), hget,
      Option.bind_some, if_pos rfl]
  refine ⟨s, 0, .nok, hcreate.refused _ _ hparent RfsErr.noConfusion, ?_, ?_⟩
  · exact fun D l hleads _ _ => absurd hleads (not_leadsTo_zero hget)
  · exact fun _ => ⟨rfl, rfl, rfl⟩

variable (h : FileTree s T) (hget : TalOS.fsGetNode s 0 path = some y) (hy : y ∈ T.nodes)
include h hget hy

/-- A name that is in the directory already is refused. -/
theorem AppendsTo.refuses_found (hnul : 0 ∉ name) (hshort : name.length < MAX_FNAME)
    (hfound : findIn s T y name ≠ 0) : CreatesOrRefuses create s name path := by
  have hparent := h.creationParent_eq hcheck hget (h.ne_zero hy)
  rw [if_pos hfound] at hparent
  have hdir := (findIn_ne_zero hfound).1
  refine ⟨s, 0, _, hcreate.refused _ _ hparent RfsErr.noConfusion, ?_, ?_⟩
  · intro D l hleads hentries hnone
    obtain ⟨rfl, -⟩ := (h.leadsTo_iff hget hy).mp hleads
    obtain rfl := hentries.unique (h.seg (h.resolve_mem hy))
    refine absurd ?_ hfound
    rw [← (h.findIn_eq_zero_iff hdir hnul hshort).mpr hnone, findIn, findIn, resolve_dir hdir]
  · exact fun hnone => absurd ((h.leadsTo_iff hget hy).mpr ⟨rfl, hdir⟩) (hnone _)

variable (hfound : findIn s T y name = 0)
include hfound

/-- A link, a file or an empty directory has no children: the `NULL` list is walked. -/
theorem AppendsTo.stops (hnull : (s.node y).children = 0) : ¬ CreatesOrRefuses create s name path := by
  have hparent := h.creationParent_eq hcheck hget (h.ne_zero hy)
  rw [if_neg (not_not.mpr hfound)] at hparent
  obtain ⟨s₁, x, k, hsprout, -, hrun⟩ := hcreate.accepted y hparent
  have hkeeps := hsprout.keeps h.below
  have hsome := (h.keep hkeeps).appendChild_isSome hy x
  rw [hkeeps.node y hy] at hsome
  rw [Option.not_isSome_iff_eq_none.mp fun his => hsome.mp his hnull] at hrun
  rintro ⟨s', x, err, hcreated, -⟩
  rw [hrun] at hcreated
  cases hcreated

/-- Where there are children already, the new entry becomes the last of them. -/
theorem AppendsTo.appends (hchildren : (s.node y).children ≠ 0) : CreatesOrRefuses create s name path := by
  have hparent := h.creationParent_eq hcheck hget (h.ne_zero hy)
  rw [if_neg (not_not.mpr hfound)] at hparent
  obtain ⟨s₁, x, k, hsprout, hname, hrun⟩ := hcreate.accepted y hparent
  have hkeeps := hsprout.keeps h.below
  have hsome := (h.keep hkeeps).appendChild_isSome hy x
  rw [hkeeps.node y hy] at hsome
  obtain ⟨s', happend⟩ := Option.isSome_iff_exists.mp (hsome.mpr hchildren)
  have htype : (s.node y).type = .directory := by
    by_contra hne
    exact hchildren ((h.kind y hy).children hne)
  have hattached := hsprout.attached h hy happend
  have hx : s.heap.currentPointer ≤ x := (hsprout.fresh x List.mem_cons_self).1
  rw [happend] at hrun
  refine ⟨s', x, .ok, hrun, ?_, ?_⟩
  · intro D l hleads hentries _
    obtain ⟨rfl, -⟩ := (h.leadsTo_iff hget hy).mp hleads
    rw [resolve_dir htype] at hentries ⊢
    obtain rfl := hentries.unique (h.seg hy)
    have hseg := (hattached.fileTree h).seg ((hattached.mem_nodes h).mpr (.inl hy))
    rw [hattached.childrenOf h hy, if_pos rfl] at hseg
    exact ⟨rfl, hx, (congrArg _ (hsprout.node_new h hy happend hx)).trans hname, hseg⟩
  · refine fun hnone => absurd ((h.leadsTo_iff hget hy).mpr ⟨rfl, ?_⟩) (hnone _)
    rw [resolve_dir htype]
    exact htype

end Call

/-- A call does what it should exactly if it finds the entry, finds nothing, or can append. -/
theorem AppendsTo.createsOrRefuses_iff
    {create : Ramfs → List UInt8 → List UInt8 → Option (Ramfs × Nat × RfsErr)}
    (hcreate : AppendsTo create s name path) (h : FileTree s T)
    (hcheck : fsCheckFileName name = true) (hnul : 0 ∉ name) (hshort : name.length < MAX_FNAME)
    (hlen : path.length < MAX_PATH) :
    CreatesOrRefuses create s name path ↔ AppendsOrFinds s name path := by
  obtain ⟨y, hget⟩ : ∃ y, TalOS.fsGetNode s 0 path = some y := by
    by_cases habs : path.head? = some SLASH
    · exact ⟨_, h.fsGetNode 0 hlen habs⟩
    · exact ⟨0, by rw [TalOS.fsGetNode, if_neg habs]; exact if_pos rfl⟩
  have hcond : AppendsOrFinds s name path ↔ y = 0 ∨ TalOS.fsFind s y name ≠ some 0 ∨
      (s.node y).type = .directory ∧ (s.node y).children ≠ 0 := by
    rw [AppendsOrFinds, hget]
    constructor
    · rintro ⟨z, hz, hor⟩
      exact (Option.some.inj hz).symm ▸ hor
    · exact fun hor => ⟨y, rfl, hor⟩
  rw [hcond]
  by_cases hzero : y = 0
  · subst hzero
    exact iff_of_true (hcreate.refuses_nowhere hcheck hget) (.inl rfl)
  obtain ⟨-, -, -, hy⟩ := h.fsGetNode_some hget hzero
  have hfind : TalOS.fsFind s y name = some (findIn s T y name) := h.fsFind hy
  rw [hfind]
  by_cases hfound : findIn s T y name = 0
  · rw [hfound]
    by_cases hnull : (s.node y).children = 0
    · refine iff_of_false (hcreate.stops hcheck h hget hy hfound hnull) ?_
      rintro (heq | hne | ⟨-, hne⟩)
      · exact hzero heq
      · exact hne rfl
      · exact hne hnull
    · have htype : (s.node y).type = .directory := by
        by_contra hne
        exact hnull ((h.kind y hy).children hne)
      exact iff_of_true (hcreate.appends hcheck h hget hy hfound hnull) (.inr (.inr ⟨htype, hnull⟩))
  · exact iff_of_true (hcreate.refuses_found hcheck h hget hy hnul hshort hfound)
      (.inr (.inl fun heq => hfound (Option.some.inj heq)))

/-- In every state that calls from `ramfs_init` on have built, a creation for which there is memory does
what it should exactly where it can append, or finds the entry, or finds nothing. -/
theorem creations_accept_iff (s₀ : Ramfs) (ops : List RamfsOp) (s : Ramfs) (hboot : Boot s₀)
    (hops : ∀ op ∈ ops, op.Proper) (hrun : ramfsRun s₀ ops = some s) (name path : List UInt8)
    (hcheck : fsCheckFileName name = true) (hnul : 0 ∉ name) (hshort : name.length < MAX_FNAME)
    (hlen : path.length < MAX_PATH) :
    (s.heap.currentPointer + 3 * SIZEOF_NODE ≤ s.heap.limit →
      (CreatesOrRefuses ramfsMkDir s name path ↔ AppendsOrFinds s name path)) ∧
      (s.heap.currentPointer + SIZEOF_NODE ≤ s.heap.limit →
        (CreatesOrRefuses ramfsNewRegFile s name path ↔ AppendsOrFinds s name path)) := by
  obtain ⟨T, h⟩ := ramfsRun_fileTree hboot hops hrun
  constructor
  · intro hroom
    exact (h.mkDir_appendsTo hcheck hnul hshort hroom).createsOrRefuses_iff h hcheck hnul hshort hlen
  · intro hroom
    exact (h.newRegFile_appendsTo hcheck hnul hshort hroom).createsOrRefuses_iff h hcheck hnul hshort hlen

/-- In the root directory after `ramfs_init` both calls make an entry `b`. -/
theorem creations_accept_root :
    ∃ s, ramfsRun bootRamfs [] = some s ∧ CreatesOrRefuses ramfsMkDir s [0x62] [SLASH] ∧
      CreatesOrRefuses ramfsNewRegFile s [0x62] [SLASH] := by
  have hrun : (ramfsRun bootRamfs []).any (fun s =>
      s.heap.currentPointer + 3 * SIZEOF_NODE ≤ s.heap.limit &&
        (fsGetNode s 0 [SLASH]).any fun y =>
          (s.node y).type = .directory && (s.node y).children ≠ 0) = true := by
    decide +kernel
  obtain ⟨s, hs, hcheck⟩ := (Option.any_eq_true ..).mp hrun
  rw [Bool.and_eq_true, decide_eq_true_eq] at hcheck
  obtain ⟨hroom, hroot⟩ := hcheck
  obtain ⟨y, hy, hdir⟩ := (Option.any_eq_true ..).mp hroot
  rw [Bool.and_eq_true, decide_eq_true_eq, decide_eq_true_eq] at hdir
  have happends : AppendsOrFinds s [0x62] [SLASH] := ⟨y, hy, .inr (.inr hdir)⟩
  obtain ⟨hmkDir, hnewRegFile⟩ := creations_accept_iff bootRamfs [] s bootRamfs_boot
    (fun _ hop => absurd hop List.not_mem_nil) hs [0x62] [SLASH] (by decide) (by decide) (by decide)
    (by decide)
  have hsize : SIZEOF_NODE = 200 := rfl
  exact ⟨s, hs, (hmkDir hroom).mpr happends, (hnewRegFile (by omega)).mpr happends⟩

/-- Under `/.`, the link to the root directory, both follow a `NULL` list. -/
theorem creations_follow_null :
    ∃ s, ramfsRun bootRamfs [] = some s ∧ s.heap.currentPointer + 3 * SIZEOF_NODE ≤ s.heap.limit ∧
      fsCheckFileName [0x62] = true ∧ ¬ CreatesOrRefuses ramfsMkDir s [0x62] [SLASH, 0x2e] ∧
      ¬ CreatesOrRefuses ramfsNewRegFile s [0x62] [SLASH, 0x2e] := by
  have hrun : (ramfsRun bootRamfs []).any (fun s =>
      s.heap.currentPointer + 3 * SIZEOF_NODE ≤ s.heap.limit &&
        (ramfsMkDir s [0x62] [SLASH, 0x2e]).isNone &&
        (ramfsNewRegFile s [0x62] [SLASH, 0x2e]).isNone) = true := by
    decide +kernel
  obtain ⟨s, hs, hcheck⟩ := (Option.any_eq_true ..).mp hrun
  simp only [Bool.and_eq_true, decide_eq_true_eq, Option.isNone_iff_eq_none] at hcheck
  obtain ⟨⟨hroom, hmkDir⟩, hnewRegFile⟩ := hcheck
  refine ⟨s, hs, hroom, by decide, ?_, ?_⟩
  · rintro ⟨s', x, err, hsome, -⟩
    rw [hmkDir] at hsome
    cases hsome
  · rintro ⟨s', x, err, hsome, -⟩
    rw [hnewRegFile] at hsome
    cases hsome

end TalOS
