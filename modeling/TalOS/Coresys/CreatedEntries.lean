-- SUMMARY: Which created entries are found again under their names.
import TalOS.Coresys.Navigation

/-!
# Created entries

A created entry is the last of its directory, so every lookup that found something
before finds the same. It is found itself if the whole name is one component that
`strncmp` takes for the stored name.
-/

namespace TalOS

variable {s s' : Ramfs} {T k : Forest Nat} {P a y : Nat} {name word : List UInt8}

/-! ## Lookups after a creation -/

theorem Created.named (h : Created T P a k name s s') (hy : y ∈ T.nodes) (word : List UInt8) :
    named s' word y = named s word y := by
  obtain ⟨next, hnext⟩ := h.node hy
  rw [TalOS.named, hnext]
  rfl

theorem Created.resolve (h : Created T P a k name s s') (hy : y ∈ T.nodes) :
    resolve s' y = resolve s y := by
  obtain ⟨next, hnext⟩ := h.node hy
  rw [TalOS.resolve, TalOS.resolve, hnext]

theorem Created.parent_directory (h : Created T P a k name s s') (ht : FileTree s T) :
    (s.node P).type = .directory := by
  obtain ⟨pre, last, hlist, -⟩ := h.append
  have hlast : last ∈ T.childrenOf P := by
    rw [hlist]
    exact List.mem_append_right _ List.mem_cons_self
  exact ht.parent_directory hlast

/-- What is found after the creation: what was found before, or else the new entry. -/
theorem Created.childNamed (h : Created T P a k name s s') (ht : FileTree s T) {D : Nat}
    (hD : D ∈ T.nodes) (word : List UInt8) :
    childNamed s' (Forest.addChild P a k T) D word =
      if childNamed s T D word = 0 then if D = P ∧ TalOS.named s' word a = true then a else 0
      else childNamed s T D word := by
  have hsame : (T.childrenOf D).find? (TalOS.named s' word) =
      (T.childrenOf D).find? (TalOS.named s word) :=
    List.find?_congr fun y hy => h.named (Forest.childrenOf_subset T hy) word
  rw [TalOS.childNamed, TalOS.childNamed, h.childrenOf ht hD]
  cases hfind : (T.childrenOf D).find? (TalOS.named s word) with
  | some x =>
    have hx : x ≠ 0 := ht.ne_zero (Forest.childrenOf_subset T (List.mem_of_find?_eq_some hfind))
    rw [Option.getD_some, if_neg hx]
    split
    · rw [List.find?_append, hsame, hfind]
      rfl
    · rw [hsame, hfind]
      rfl
  | none =>
    rw [Option.getD_none, if_pos rfl]
    by_cases hP : D = P
    · rw [if_pos hP, List.find?_append, hsame, hfind, Option.none_or]
      by_cases hnamed : TalOS.named s' word a = true
      · rw [List.find?_cons_of_pos hnamed, if_pos ⟨hP, hnamed⟩]
        rfl
      · rw [List.find?_cons_of_neg hnamed, if_neg fun hboth => hnamed hboth.2]
        rfl
    · rw [if_neg hP, hsame, hfind, if_neg fun hboth => hP hboth.1]
      rfl

theorem Created.findIn (h : Created T P a k name s s') (ht : FileTree s T) (hy : y ∈ T.nodes)
    (word : List UInt8) :
    findIn s' (Forest.addChild P a k T) y word =
      if findIn s T y word = 0 then
        if TalOS.resolve s y = P ∧ TalOS.named s' word a = true then a else 0
      else findIn s T y word := by
  have hD := ht.resolve_mem hy
  obtain ⟨next, hnext⟩ := h.node hD
  rw [TalOS.findIn, TalOS.findIn, h.resolve hy, hnext]
  by_cases htype : (s.node (TalOS.resolve s y)).type = .directory
  · rw [if_pos htype, if_pos htype]
    exact h.childNamed ht hD word
  · have hP : TalOS.resolve s y ≠ P := fun heq => htype (heq ▸ h.parent_directory ht)
    rw [if_neg htype, if_neg htype, if_pos rfl, if_neg fun hboth => hP hboth.1]

/-- A walk that arrived arrives at the same node. -/
theorem Created.walk (h : Created T P a k name s s') (ht : FileTree s T) {names : List (List UInt8)}
    (hy : y ∈ T.nodes) (hwalk : walk s T names y ≠ 0) :
    walk s' (Forest.addChild P a k T) names y = walk s T names y := by
  induction names generalizing y with
  | nil => rfl
  | cons word names ih =>
    rw [TalOS.walk] at hwalk
    split at hwalk
    · exact absurd rfl hwalk
    · next hfound =>
      have hsame : TalOS.findIn s' (Forest.addChild P a k T) y word = TalOS.findIn s T y word := by
        rw [h.findIn ht hy, if_neg hfound]
      rw [TalOS.walk, TalOS.walk, hsame, if_neg hfound, if_neg hfound]
      exact ih (findIn_mem hfound) hwalk

/-- Every path that led to a node leads to the same one. -/
theorem Created.fsGetNode (h : Created T P a k name s s') (ht : FileTree s T) {path : List UInt8}
    (hget : fsGetNode s 0 path = some y) (hy : y ≠ 0) : TalOS.fsGetNode s' 0 path = some y := by
  obtain ⟨hlen, habs, hwalk, -⟩ := ht.fsGetNode_some hget hy
  rw [(h.toAttached.fileTree ht).fsGetNode 0 hlen habs, h.walk ht ht.root_mem (hwalk ▸ hy), ← hwalk]

/-! ## The name of the new entry -/

/-- `strncmp` reads no byte behind the one at `MAX_FNAME`. -/
theorem named_congr {word word' : List UInt8}
    (h : ∀ i ≤ MAX_FNAME, stringBytes word i = stringBytes word' i) : named s word y = named s word' y := by
  have hiff : named s word y = true ↔ named s word' y = true := by
    rw [named, named, decide_eq_true_iff, decide_eq_true_iff, strncmp_eq_zero_iff, strncmp_eq_zero_iff]
    simp only [Nat.zero_add]
    refine exists_congr fun n => and_congr_right fun hn => ?_
    rw [h n hn]
    refine and_congr_left fun _ => forall_congr' fun j => forall_congr' fun hj => ?_
    rw [h j (Nat.le_trans (Nat.le_of_lt hj) hn)]
  rw [Bool.eq_iff_iff, hiff]

theorem stringBytes_take {path : List UInt8} {i : Nat} (h : i < MAX_FNAME) :
    stringBytes (path.take MAX_FNAME) i = stringBytes path i := by
  rw [stringBytes, stringBytes, List.getD_eq_getElem?_getD, List.getD_eq_getElem?_getD,
    List.getElem?_take_of_lt h]

/-- The new entry passes for a word that starts with its stored name, if the name was cut; else for
its name only. -/
theorem Created.named_new (h : Created T P a k name s s') (hnul : 0 ∉ name) (hnul' : 0 ∉ word) :
    TalOS.named s' word a = true ↔
      if name.length < MAX_FNAME then word = name
      else word.take MAX_FNAME = name.take MAX_FNAME ∧
        s.lastIno.toUInt8 = stringBytes word MAX_FNAME := by
  have hstored : 0 ∉ (s'.node a).name := by
    rw [h.nameEq]
    exact fun hmem => hnul (List.mem_of_mem_take hmem)
  split
  · next hshort =>
    have hname : (s'.node a).name = name := by
      rw [h.nameEq, List.take_of_length_le (Nat.le_of_lt hshort)]
    rw [named_short (hname ▸ hshort) hstored hnul', hname]
  · next hlong =>
    have hlength : (s'.node a).name.length = MAX_FNAME := by
      rw [h.nameEq, List.length_take_of_le (Nat.not_lt.mp hlong)]
    rw [named_long hlength hstored, h.nameEq, h.ino]

/-- The first slash of a name that is accepted stands behind what is stored. -/
theorem length_of_split {head tail : List UInt8}
    (hslash : SLASH ∉ (head ++ SLASH :: tail).take MAX_FNAME) : MAX_FNAME ≤ head.length := by
  by_contra hlt
  refine hslash ?_
  obtain ⟨n, hn⟩ := Nat.exists_eq_add_of_lt (Nat.not_le.mp hlt)
  have hrest : MAX_FNAME - head.length = n + 1 := by omega
  rw [List.take_append, hrest, List.take_succ_cons]
  exact List.mem_append_right _ List.mem_cons_self

/-- The components of a name that is accepted. -/
theorem comps_cases (hslash : SLASH ∉ name.take MAX_FNAME) :
    comps name = [] ∨ comps name = [name] ∨
      ∃ head tail, name = head ++ SLASH :: tail ∧ MAX_FNAME ≤ head.length ∧ comps name = head :: comps tail := by
  rcases split_firstSlash name with hnone | ⟨head, tail, hsplit, hhead⟩
  · rw [comps_of_no_slash hnone]
    split
    · exact .inl rfl
    · exact .inr (.inl rfl)
  · have hlength : MAX_FNAME ≤ head.length := length_of_split (hsplit ▸ hslash)
    have hne : head ≠ [] := List.ne_nil_of_length_pos (Nat.lt_of_lt_of_le (by decide) hlength)
    refine .inr (.inr ⟨head, tail, hsplit, hlength, ?_⟩)
    rw [hsplit, comps_append_slash, comps_of_no_slash hhead, if_neg hne]
    rfl

/-- With several components the first one takes up more than half of a path. -/
theorem last_component_short (hslash : SLASH ∉ name.take MAX_FNAME) (hlen : name.length < MAX_PATH)
    {first : List UInt8} {init : List (List UInt8)} (hcomps : comps name = first :: init ++ [word]) :
    MAX_FNAME ≤ name.length ∧ word.length < MAX_FNAME := by
  rcases comps_cases hslash with hnil | hone | ⟨head, tail, hsplit, hhead, hsome⟩
  · rw [hnil] at hcomps
    cases hcomps
  · rw [hone, List.cons_append] at hcomps
    exact absurd (List.cons.inj hcomps).2.symm (List.append_ne_nil_of_right_ne_nil _ (List.cons_ne_nil _ _))
  · rw [hsome, List.cons_append] at hcomps
    have hmem : word ∈ comps tail := by
      rw [(List.cons.inj hcomps).2]
      exact List.mem_append_right _ List.mem_cons_self
    have hword := (comps_part hmem).length_le
    rw [hsplit, List.length_append, List.length_cons] at hlen ⊢
    simp only [MAX_FNAME, MAX_PATH] at *
    omega

/-- A lookup of components from the parent finds the new entry only with a single component: with
more, the first and the last would each be longer than a path is. -/
theorem Created.walk_new (h : Created T P a k name s s') (ht : FileTree s T) (hnul : 0 ∉ name)
    (hslash : SLASH ∉ name.take MAX_FNAME) (hlen : name.length < MAX_PATH) :
    TalOS.walk s' (Forest.addChild P a k T) (comps name) P = a ↔
      ∃ word, comps name = [word] ∧ TalOS.findIn s' (Forest.addChild P a k T) P word = a := by
  have ht' := h.toAttached.fileTree ht
  have ha : a ≠ P := fun heq => h.new ht List.mem_cons_self (heq ▸ h.parent)
  have hane : a ≠ 0 := ht'.ne_zero ((h.mem_nodes ht).mpr (.inr List.mem_cons_self))
  constructor
  · intro hwalk
    rcases List.eq_nil_or_concat (comps name) with hnil | ⟨init, word, hcomps⟩
    · rw [hnil] at hwalk
      exact absurd hwalk.symm ha
    · rw [List.concat_eq_append] at hcomps
      rw [hcomps] at hwalk
      obtain ⟨-, hstep⟩ := walk_concat (ht'.ne_zero ((h.mem_nodes ht).mpr (.inl h.parent)))
        (hwalk ▸ hane : TalOS.walk s' _ (init ++ [word]) P ≠ 0)
      rw [hwalk] at hstep
      obtain ⟨-, -, -, hnamed⟩ := findIn_ne_zero (hstep ▸ hane)
      rw [← hstep] at hnamed
      have hmem : word ∈ comps name := hcomps ▸ List.mem_append_right _ List.mem_cons_self
      have hword := (h.named_new hnul fun hzero => hnul ((comps_part hmem).subset hzero)).mp hnamed
      cases init with
      | nil => exact ⟨word, hcomps, hstep.symm⟩
      | cons first init =>
        obtain ⟨hlong, hshort⟩ := last_component_short hslash hlen hcomps
        rw [if_neg (Nat.not_lt.mpr hlong)] at hword
        have htake := congrArg List.length hword.1
        rw [List.length_take_of_le hlong, List.length_take] at htake
        exact absurd htake (by omega)
  · rintro ⟨word, hcomps, hfind⟩
    rw [hcomps, walk_singleton]
    exact hfind

/-! ## Finding the entry again -/

/-- What a creation of `name` in the directory at `P`, which gave the node `x`, should have done: the
node is found under its path, a second creation is refused, and every path that led to a node leads to
the same one. -/
structure FoundAgain (s s' : Ramfs) (P name : List UInt8) (x : Nat) : Prop where
  found : fsGetNode s' 0 (joinPath P name) = some x
  mkDir : ramfsMkDir s' name P = some (s', 0, .fileAlreadyExists)
  newRegFile : ramfsNewRegFile s' name P = some (s', 0, .fileAlreadyExists)
  others : ∀ path y, fsGetNode s 0 path = some y → y ≠ 0 → fsGetNode s' 0 path = some y

theorem FileTree.creationParent_eq (h : FileTree s T) {path : List UInt8}
    (hcheck : fsCheckFileName name = true) (hget : TalOS.fsGetNode s 0 path = some P) (hP : P ≠ 0) :
    TalOS.creationParent s name path =
      some (if TalOS.findIn s T P name ≠ 0 then (.fileAlreadyExists, 0) else (.ok, P)) := by
  have hmem := (h.fsGetNode_some hget hP).2.2.2
  rw [TalOS.creationParent, if_neg (by rw [hcheck]; exact Bool.noConfusion), hget, Option.bind_some,
    if_neg hP, h.fsFind hmem, Option.bind_some]
  split <;> rfl

theorem ramfsNewRegFile_exists {path : List UInt8} {x : Nat}
    (hrun : ramfsNewRegFile s name path = some (s', x, .fileAlreadyExists)) :
    creationParent s name path ≠ some (.ok, P) := by
  intro hparent
  rw [ramfsNewRegFile, hparent, Option.bind_some, if_neg (not_not.mpr rfl)] at hrun
  dsimp only at hrun
  split at hrun
  · exact absurd (Prod.mk.inj (Prod.mk.inj (Option.some.inj hrun)).2).2 RfsErr.noConfusion
  · obtain ⟨s₁, -, hrun⟩ := Option.bind_eq_some_iff.mp hrun
    obtain ⟨s₂, -, hrun⟩ := Option.map_eq_some_iff.mp hrun
    exact absurd (Prod.mk.inj (Prod.mk.inj hrun).2).2 RfsErr.noConfusion

/-- A second creation is refused exactly if the name is found. -/
theorem FileTree.refused_iff (h : FileTree s T) {path : List UInt8}
    (hcheck : fsCheckFileName name = true) (hget : TalOS.fsGetNode s 0 path = some P) (hP : P ≠ 0) :
    ramfsMkDir s name path = some (s, 0, .fileAlreadyExists) ∧
        ramfsNewRegFile s name path = some (s, 0, .fileAlreadyExists) ↔
      TalOS.findIn s T P name ≠ 0 := by
  have hparent := h.creationParent_eq hcheck hget hP
  constructor
  · rintro ⟨-, hrun⟩ hzero
    rw [if_neg (not_not.mpr hzero)] at hparent
    exact ramfsNewRegFile_exists hrun hparent
  · intro hfound
    rw [if_pos hfound] at hparent
    rw [ramfsMkDir, ramfsNewRegFile, hparent]
    exact ⟨rfl, rfl⟩

/-- When the stored name passes both for the component that the path lookup sees and for the whole
name. -/
def NameReturns (ino : Nat) (name : List UInt8) : Prop :=
  ∃ word, comps name = [word] ∧ (name.length < MAX_FNAME ∨
    stringBytes word MAX_FNAME = ino.toUInt8 ∧ stringBytes name MAX_FNAME = ino.toUInt8)

/-- The single component of a name that is cut agrees with it where `strncmp` reads. -/
theorem take_component (hslash : SLASH ∉ name.take MAX_FNAME)
    (hcomps : comps name = [word]) : word.take MAX_FNAME = name.take MAX_FNAME := by
  rcases comps_cases hslash with hnil | hone | ⟨head, tail, hsplit, hhead, hsome⟩
  · rw [hnil] at hcomps
    cases hcomps
  · rw [hone] at hcomps
    rw [(List.cons.inj hcomps).1]
  · rw [hsome] at hcomps
    rw [← (List.cons.inj hcomps).1, hsplit, List.take_append_of_le_length hhead]

theorem stringBytes_congr (htake : word.take MAX_FNAME = name.take MAX_FNAME)
    (hbyte : stringBytes word MAX_FNAME = stringBytes name MAX_FNAME) :
    ∀ i ≤ MAX_FNAME, stringBytes word i = stringBytes name i := by
  intro i hi
  rcases Nat.lt_or_eq_of_le hi with hlt | rfl
  · rw [← stringBytes_take hlt, htake, stringBytes_take hlt]
  · exact hbyte

/-- The new entry is found under a word that nothing was found under, if its name passes for it. -/
theorem Created.findIn_parent (h : Created T P a k name s s') (ht : FileTree s T) :
    TalOS.findIn s' (Forest.addChild P a k T) P word = a ↔
      TalOS.findIn s T P word = 0 ∧ TalOS.named s' word a = true := by
  have hself : TalOS.resolve s P = P := resolve_dir (h.parent_directory ht)
  have ha : a ∉ T.nodes := h.new ht List.mem_cons_self
  have hane : a ≠ 0 :=
    (h.toAttached.fileTree ht).ne_zero ((h.mem_nodes ht).mpr (.inr List.mem_cons_self))
  rw [h.findIn ht h.parent]
  by_cases hzero : TalOS.findIn s T P word = 0
  · rw [if_pos hzero]
    by_cases hnamed : TalOS.named s' word a = true
    · rw [if_pos ⟨hself, hnamed⟩]
      exact iff_of_true rfl ⟨hzero, hnamed⟩
    · rw [if_neg fun hboth => hnamed hboth.2]
      exact iff_of_false (Ne.symm hane) fun hboth => hnamed hboth.2
  · rw [if_neg hzero]
    exact iff_of_false (fun heq => ha (heq ▸ findIn_mem hzero)) fun hboth => hzero hboth.1

/-- The entry is found again if its name is one component that passes for it and for nothing else, and
the name itself passes for it. -/
theorem Created.foundAgain_iff_named (h : Created T P a k name s s') (ht : FileTree s T)
    {path : List UInt8} (hparent : creationParent s name path = some (.ok, P)) (hnul : 0 ∉ name)
    (hlen : path.length + 1 + name.length < MAX_PATH) :
    FoundAgain s s' path name a ↔
      (∃ word, comps name = [word] ∧ TalOS.findIn s T P word = 0 ∧ TalOS.named s' word a = true) ∧
        TalOS.named s' name a = true := by
  obtain ⟨hcheck, hget, hP, hfind⟩ := ht.creationParent hparent
  have ht' := h.toAttached.fileTree ht
  have hPne := ht.ne_zero hP
  have hane : a ≠ 0 := ht'.ne_zero ((h.mem_nodes ht).mpr (.inr List.mem_cons_self))
  have hget' := h.fsGetNode ht hget hPne
  have hslash : SLASH ∉ name.take MAX_FNAME := (of_decide_eq_true hcheck).2.2
  have hfit : (joinPath path name).length < MAX_PATH := by
    rw [length_joinPath]
    omega
  have hlookup : TalOS.fsGetNode s' 0 (joinPath path name) = some a ↔
      ∃ word, comps name = [word] ∧ TalOS.findIn s T P word = 0 ∧ TalOS.named s' word a = true := by
    rw [ht'.fsGetNode_joinPath hget' hPne hfit, Option.some.injEq,
      h.walk_new ht hnul hslash (by omega)]
    exact exists_congr fun word => and_congr_right fun _ => h.findIn_parent ht
  have hrefused : TalOS.findIn s' (Forest.addChild P a k T) P name ≠ 0 ↔ TalOS.named s' name a = true := by
    constructor
    · intro hne
      by_contra hnamed
      rw [h.findIn ht hP, if_pos hfind, if_neg fun hboth => hnamed hboth.2] at hne
      exact hne rfl
    · intro hnamed
      rw [(h.findIn_parent ht).mpr ⟨hfind, hnamed⟩]
      exact hane
  rw [← hlookup, ← hrefused, ← ht'.refused_iff hcheck hget' hPne]
  exact ⟨fun hagain => ⟨hagain.found, hagain.mkDir, hagain.newRegFile⟩,
    fun hboth => ⟨hboth.1, hboth.2.1, hboth.2.2, fun path y hpath hy => h.fsGetNode ht hpath hy⟩⟩

theorem Created.foundAgain_iff (h : Created T P a k name s s') (ht : FileTree s T)
    {path : List UInt8} (hparent : creationParent s name path = some (.ok, P)) (hnul : 0 ∉ name)
    (hlen : path.length + 1 + name.length < MAX_PATH) :
    FoundAgain s s' path name a ↔ NameReturns s.lastIno name := by
  obtain ⟨hcheck, -, -, hfind⟩ := ht.creationParent hparent
  have hslash : SLASH ∉ name.take MAX_FNAME := (of_decide_eq_true hcheck).2.2
  rw [h.foundAgain_iff_named ht hparent hnul hlen, NameReturns, h.named_new hnul hnul]
  have hword {word : List UInt8} (hcomps : comps name = [word]) : 0 ∉ word := by
    have hmem : word ∈ comps name := hcomps ▸ List.mem_cons_self
    exact fun hzero => hnul ((comps_part hmem).subset hzero)
  by_cases hshort : name.length < MAX_FNAME
  · -- A short name is stored whole, and it is one component if it is not empty.
    rw [List.take_of_length_le (Nat.le_of_lt hshort)] at hslash
    rw [if_pos hshort]
    constructor
    · rintro ⟨⟨word, hcomps, -⟩, -⟩
      exact ⟨word, hcomps, .inl hshort⟩
    · rintro ⟨word, hcomps, -⟩
      have heq : word = name := by
        rw [comps_of_no_slash hslash] at hcomps
        split at hcomps
        · cases hcomps
        · exact (List.cons.inj hcomps).1.symm
      refine ⟨⟨word, hcomps, heq ▸ hfind, ?_⟩, rfl⟩
      rw [h.named_new hnul (hword hcomps), if_pos hshort]
      exact heq
  · rw [if_neg hshort]
    constructor
    · rintro ⟨⟨word, hcomps, -, hnamed⟩, -, hbyte⟩
      rw [h.named_new hnul (hword hcomps), if_neg hshort] at hnamed
      exact ⟨word, hcomps, .inr ⟨hnamed.2.symm, hbyte.symm⟩⟩
    · rintro ⟨word, hcomps, hlt | ⟨hbyte, hbyte'⟩⟩
      · exact absurd hlt hshort
      · have htake := take_component hslash hcomps
        refine ⟨⟨word, hcomps, ?_, ?_⟩, rfl, hbyte'.symm⟩
        · -- Nothing else passes for the component, since nothing passed for the name.
          have hdir := h.parent_directory ht
          have hsame : TalOS.named s word = TalOS.named s name :=
            funext fun y => named_congr (stringBytes_congr htake (hbyte.trans hbyte'.symm))
          rw [findIn_dir hdir, TalOS.childNamed] at hfind ⊢
          rwa [hsame]
        · rw [h.named_new hnul (hword hcomps), if_neg hshort]
          exact ⟨htake, hbyte.symm⟩

/-- In every state that a run reaches, a created entry is found again exactly if its name is one
component and is short, or goes on with the lowest byte of the inode number the entry gets. -/
theorem created_foundAgain_iff (s₀ : Ramfs) (ops : List RamfsOp) (s s' : Ramfs) (hboot : Boot s₀)
    (hops : ∀ op ∈ ops, op.Proper) (hrun : ramfsRun s₀ ops = some s) (path name : List UInt8) (x : Nat) (err : RfsErr)
    (hnul : 0 ∉ name) (hlen : path.length + 1 + name.length < MAX_PATH)
    (hcreate : ramfsMkDir s name path = some (s', x, err) ∨
      ramfsNewRegFile s name path = some (s', x, err)) (hx : x ≠ 0) :
    FoundAgain s s' path name x ↔ NameReturns s.lastIno name := by
  obtain ⟨T, h⟩ := ramfsRun_fileTree hboot hops hrun
  have houtcome : CreationOutcome T name path s s' x err := by
    rcases hcreate with hcreate | hcreate
    · exact h.mkDir_outcome hnul hcreate
    · exact h.newRegFile_outcome hnul hcreate
  rcases houtcome with ⟨hzero, -⟩ | ⟨-, P, k, hparent, hcreated⟩
  · exact absurd hzero hx
  · exact hcreated.foundAgain_iff h hparent hnul hlen

/-- The first directory. -/
theorem created_foundAgain_first :
    ∃ s s' x, ramfsRun bootRamfs [] = some s ∧ ramfsMkDir s [0x61] [SLASH] = some (s', x, .ok) ∧
      FoundAgain s s' [SLASH] [0x61] x := by
  have hrun : (ramfsRun bootRamfs []).any (fun s =>
      (ramfsMkDir s [0x61] [SLASH]).any fun r => r.2.1 ≠ 0 && r.2.2 = .ok) = true := by
    decide +kernel
  obtain ⟨s, hs, hmkDir⟩ := (Option.any_eq_true ..).mp hrun
  obtain ⟨⟨s', x, err⟩, hcreate, hcheck⟩ := (Option.any_eq_true ..).mp hmkDir
  simp only [Bool.and_eq_true, decide_eq_true_eq] at hcheck
  obtain ⟨hx, rfl⟩ := hcheck
  have hagain := created_foundAgain_iff bootRamfs [] s s' bootRamfs_boot (by decide) hs [SLASH]
    [0x61] x .ok (by decide) (by decide) (.inl hcreate) hx
  exact ⟨s, s', x, hs, hcreate, hagain.mpr ⟨[0x61], by decide, .inl (by decide)⟩⟩

/-- A file with an empty name is created, but its path is that of the directory. -/
theorem created_empty_name :
    ∃ s s' x, ramfsRun bootRamfs [] = some s ∧ fsCheckFileName [] = true ∧
      ramfsNewRegFile s [] [SLASH] = some (s', x, .ok) ∧ x ≠ 0 ∧ ¬ FoundAgain s s' [SLASH] [] x := by
  have hrun : (ramfsRun bootRamfs []).any (fun s => (ramfsNewRegFile s [] [SLASH]).any fun r =>
      r.2.1 ≠ 0 && r.2.2 = .ok && fsGetNode r.1 0 (joinPath [SLASH] []) ≠ some r.2.1) = true := by
    decide +kernel
  obtain ⟨s, hs, hfile⟩ := (Option.any_eq_true ..).mp hrun
  obtain ⟨⟨s', x, err⟩, hcreate, hcheck⟩ := (Option.any_eq_true ..).mp hfile
  simp only [Bool.and_eq_true, decide_eq_true_eq] at hcheck
  obtain ⟨⟨hx, rfl⟩, hdiffer⟩ := hcheck
  exact ⟨s, s', x, hs, by decide, hcreate, hx, fun hagain => hdiffer hagain.found⟩

end TalOS
