-- SUMMARY: The two parts of a path: the last component, and the path of the parent.
import TalOS.Coresys.Vfs

/-!
# Parts of a path

`fs_getFileName` and `fs_getParentPath` work on a copy of the path. For a path that
fits the copy and does not end in a slash they give the last component and a path
with all components but the last.
-/

namespace TalOS

/-- A path is what stands up to its last slash, and the part behind it. -/
theorem split_lastSlash (path : List UInt8) :
    ∃ pre word, path = pre ++ word ∧ SLASH ∉ word ∧ (pre = [] ∨ ∃ dir, pre = dir ++ [SLASH]) := by
  induction path with
  | nil => exact ⟨[], [], rfl, List.not_mem_nil, .inl rfl⟩
  | cons c cs ih =>
    obtain ⟨pre, word, rfl, hword, hpre | ⟨dir, rfl⟩⟩ := ih
    · subst hpre
      by_cases hc : c = SLASH
      · exact ⟨[c], word, rfl, hword, .inr ⟨[], congrArg ([·]) hc⟩⟩
      · refine ⟨[], c :: word, rfl, ?_, .inl rfl⟩
        rw [List.mem_cons, not_or]
        exact ⟨Ne.symm hc, hword⟩
    · exact ⟨c :: (dir ++ [SLASH]), word, rfl, hword, .inr ⟨c :: dir, rfl⟩⟩

/-- What stands before the last component of an absolute path without trailing slash. -/
structure LastComponent (path : List UInt8) (dir word : List UInt8) : Prop where
  eq : path = dir ++ SLASH :: word
  slash : SLASH ∉ word
  ne : word ≠ []

theorem exists_lastComponent {path : List UInt8} (habs : path.head? = some SLASH)
    (htrail : path.getLast? ≠ some SLASH) : ∃ dir word, LastComponent path dir word := by
  obtain ⟨pre, word, rfl, hword, hpre | ⟨dir, rfl⟩⟩ := split_lastSlash path
  · rw [hpre, List.nil_append] at habs
    exact absurd (List.mem_of_mem_head? habs) hword
  · refine ⟨dir, word, by rw [List.append_assoc, List.singleton_append], hword, ?_⟩
    rintro rfl
    rw [List.append_nil, List.getLast?_concat] at htrail
    exact htrail rfl

variable {path dir word : List UInt8}

theorem LastComponent.comps (h : LastComponent path dir word) :
    comps path = TalOS.comps dir ++ [word] := by
  rw [h.eq, comps_append_slash, comps_of_no_slash h.slash, if_neg h.ne]

theorem LastComponent.getLast? (h : LastComponent path dir word) : path.getLast? ≠ some SLASH := by
  obtain ⟨init, c, rfl⟩ := List.eq_nil_or_concat word |>.resolve_left h.ne
  have hc : c ≠ SLASH := by
    rintro rfl
    refine h.slash ?_
    rw [List.concat_eq_append]
    exact List.mem_append_right _ List.mem_cons_self
  rw [h.eq, List.concat_eq_append, ← List.cons_append, ← List.append_assoc, List.getLast?_concat]
  exact fun heq => hc (Option.some.inj heq)

/-- The loop of `fs_getFileName` ends on the last component. -/
theorem lastToken_eq {saved : Option CharBuf} {fuel : Nat} {prev : Option (List UInt8)}
    (hsaved : ∀ str ∈ saved, str.terminated = true) (hfuel : bytesLeft saved < fuel) :
    lastToken fuel saved prev = some ((compsLeft saved).getLast?.or prev) := by
  refine tokens_induction (motive := fun fuel saved =>
    ∀ prev, lastToken fuel saved prev = some ((compsLeft saved).getLast?.or prev)) ?_ ?_ hsaved hfuel prev
  · intro fuel saved save hrun hnone prev
    rw [lastToken, hrun, Option.bind_some, hnone]
    rfl
  · intro fuel saved word save hrun hcomps ih prev
    rw [lastToken, hrun, Option.bind_some, hcomps]
    dsimp only
    rw [ih]
    cases compsLeft save with
    | nil => rw [List.getLast?_nil, Option.none_or, List.getLast?_singleton, Option.some_or]
    | cons c cs =>
      rw [List.getLast?_cons_cons, List.getLast?_eq_some_getLast (List.cons_ne_nil c cs)]
      rfl

theorem LastComponent.intPathOf (h : LastComponent path dir word) (hlen : path.length < MAX_FNAME) :
    intPathOf path = some ⟨path, true⟩ := by
  have hne : path ≠ [] := by
    rw [h.eq]
    exact List.append_ne_nil_of_right_ne_nil _ (List.cons_ne_nil _ _)
  rw [TalOS.intPathOf, strncpy, List.take_of_length_le (Nat.le_of_lt hlen), decide_eq_true hlen]
  dsimp only
  rw [fsRemoveLastSlash, if_neg hne, if_neg h.getLast?, Option.map_some, Bool.true_or]

/-- `fs_getFileName` gives the last component. -/
theorem LastComponent.fsGetFileName (h : LastComponent path dir word)
    (hlen : path.length < MAX_FNAME) : fsGetFileName path = some (some word) := by
  have hfuel : bytesLeft (some ⟨path, true⟩) < path.length + 2 := Nat.lt_succ_self _
  rw [TalOS.fsGetFileName, h.intPathOf hlen, Option.bind_some, lastToken_eq (by simp) hfuel, compsLeft, h.comps,
    List.getLast?_concat]
  rfl

/-- `fs_getParentPath` gives what stands before it, `/` if that is nothing. -/
theorem LastComponent.fsGetParentPath (h : LastComponent path dir word)
    (hlen : path.length < MAX_FNAME) :
    fsGetParentPath path = some (some (if dir = [] then [SLASH] else dir)) := by
  have hlength : path.length = dir.length + 1 + word.length := by
    rw [h.eq, List.length_append, List.length_cons]
    omega
  have hword : min word.length MAX_FNAME = word.length := Nat.min_eq_left (by omega)
  have htake : path.take (path.length - word.length) = dir ++ [SLASH] := by
    rw [hlength, Nat.add_sub_cancel, h.eq, List.append_cons]
    exact List.take_left' (by rw [List.length_append, List.length_singleton])
  rw [TalOS.fsGetParentPath, h.intPathOf hlen, Option.bind_some, h.fsGetFileName hlen,
    Option.bind_some]
  dsimp only
  rw [hword, htake]
  by_cases hdir : dir = []
  · rw [if_pos hdir, hdir]
    rfl
  · have hne : (dir ++ [SLASH]).length ≠ 1 := by
      rw [List.length_append, List.length_singleton]
      have hpos := List.length_pos_iff.mpr hdir
      omega
    rw [if_pos hne, if_neg hdir, fsRemoveLastSlash, if_neg (List.append_ne_nil_of_left_ne_nil hdir _),
      if_pos List.getLast?_concat, List.dropLast_concat]
    rfl

/-! ## Following a path -/

/-- `a/b` -/
def joinPath (a b : List UInt8) : List UInt8 := a ++ SLASH :: b

@[simp] theorem length_joinPath (a b : List UInt8) : (joinPath a b).length = a.length + (b.length + 1) :=
  List.length_append

theorem comps_joinPath (a b : List UInt8) : TalOS.comps (joinPath a b) = TalOS.comps a ++ TalOS.comps b :=
  comps_append_slash a b

/-- One step of a lookup: `NULL` stays `NULL`. -/
def findStep (s : Ramfs) (node : Nat) (name : List UInt8) : Option Nat :=
  if node = 0 then some 0 else fsFind s node name

/-- Where a path starts. -/
def pathStart (s : Ramfs) (cur : Nat) (path : List UInt8) : Nat :=
  if path.head? = some SLASH then s.root else cur

variable {s : Ramfs} {cur x : Nat}

theorem foldlM_findStep_zero (names : List (List UInt8)) :
    names.foldlM (findStep s) 0 = some 0 := by
  induction names with
  | nil => rfl
  | cons name names ih => exact ih

theorem findStep_ne {name : List UInt8} (hx : x ≠ 0) : findStep s x name = fsFind s x name := if_neg hx

/-- The loop of `fs_get_node` looks the components up one after the other. -/
theorem walkTokens_fold {saved : Option CharBuf} {fuel : Nat} (hx : x ≠ 0)
    (hsaved : ∀ str ∈ saved, str.terminated = true) (hfuel : bytesLeft saved < fuel) :
    walkTokens s fuel saved x = (compsLeft saved).foldlM (findStep s) x := by
  refine tokens_induction (motive := fun fuel saved =>
    ∀ x ≠ 0, walkTokens s fuel saved x = (compsLeft saved).foldlM (findStep s) x) ?_ ?_ hsaved hfuel x hx
  · intro fuel saved save hrun hnone x _
    rw [walkTokens, hrun, Option.bind_some, hnone]
    rfl
  · intro fuel saved word save hrun hcomps ih x hx
    rw [walkTokens, hrun, Option.bind_some, hcomps, List.foldlM_cons, findStep_ne hx]
    refine congrArg (Option.bind (fsFind s x word)) (funext fun next => ?_)
    split
    · next hzero => rw [hzero, foldlM_findStep_zero]
    · next hnext => exact ih next hnext

/-- `fs_get_node` is the fold of `fs_find` over the components of a path that fits its array. -/
theorem fsGetNode_eq_fold {path : List UInt8} (hlen : path.length < MAX_PATH) :
    fsGetNode s cur path = (TalOS.comps path).foldlM (findStep s) (pathStart s cur path) := by
  have hcopy : strncpy path MAX_PATH = ⟨path, true⟩ := by
    rw [strncpy, List.take_of_length_le (Nat.le_of_lt hlen), decide_eq_true hlen]
  rw [fsGetNode, hcopy]
  change (if pathStart s cur path = 0 then _ else _) = _
  split
  · next hzero => rw [hzero, foldlM_findStep_zero]
  · next hstart => exact walkTokens_fold hstart (by simp) (Nat.lt_succ_self _)

end TalOS
