-- SUMMARY: For which paths `fs_getFileName` and `fs_getParentPath` split off the last component and lose nothing.
import Mathlib.Data.List.Induction
import TalOS.Coresys.PathNames

/-!
# Splitting a path

Both functions remove one slash from the end of the path. `fs_getFileName` then skips
all slashes that are left there, while `fs_getParentPath` takes as many characters off
the end as the name has: each slash left keeps one character of the name in the parent.
-/

namespace TalOS

/-- The name is the last component and the parent's components are the others, so that looking the name up in
the parent is following the path, in every state in which the parent is found. -/
def SplitsPath (path : List UInt8) : Prop :=
  ∃ name parent, fsGetFileName path = some (some name) ∧ (comps path).getLast? = some name ∧
    fsGetParentPath path = some (some parent) ∧ comps parent = (comps path).dropLast ∧
    ∀ (s : Ramfs) (x : Nat), fsGetNode s 0 parent = some x → x ≠ 0 → fsFind s x name = fsGetNode s 0 path

/-! ## Slashes at the end -/

/-- `n` slashes. -/
def slashes (n : Nat) : List UInt8 := List.replicate n SLASH

theorem slashes_succ (n : Nat) : slashes (n + 1) = SLASH :: slashes n := rfl

theorem slashes_succ' (n : Nat) : slashes (n + 1) = slashes n ++ [SLASH] := List.replicate_succ'

@[simp] theorem length_slashes (n : Nat) : (slashes n).length = n := List.length_replicate

/-- The slashes at the end of a path. -/
theorem exists_slashes (path : List UInt8) :
    ∃ base n, path = base ++ slashes n ∧ base.getLast? ≠ some SLASH := by
  induction path using List.reverseRecOn with
  | nil => exact ⟨[], 0, rfl, by simp⟩
  | append_singleton path c ih =>
    by_cases hc : c = SLASH
    · obtain ⟨base, n, rfl, hbase⟩ := ih
      refine ⟨base, n + 1, ?_, hbase⟩
      rw [hc, slashes_succ', List.append_assoc]
    · refine ⟨path ++ [c], 0, (List.append_nil _).symm, ?_⟩
      rw [List.getLast?_concat]
      exact fun heq => hc (Option.some.inj heq)

@[simp] theorem comps_slashes (n : Nat) : comps (slashes n) = [] := by
  induction n with
  | zero => rfl
  | succ n ih => rw [slashes_succ, comps_slash, ih]

/-- They do not matter for the components. -/
@[simp] theorem comps_append_slashes (base : List UInt8) (n : Nat) : comps (base ++ slashes n) = comps base := by
  cases n with
  | zero => rw [slashes, List.replicate_zero, List.append_nil]
  | succ n => rw [slashes_succ, comps_append_slash, comps_slashes, List.append_nil]

/-- A path ends in two slashes exactly if it ends in at least two. -/
theorem two_slashes_suffix_iff {base : List UInt8} (hbase : base.getLast? ≠ some SLASH) (n : Nat) :
    [SLASH, SLASH] <:+ base ++ slashes n ↔ 2 ≤ n := by
  constructor
  · rintro ⟨front, hfront⟩
    match n with
    | 0 =>
      have hlast := congrArg List.getLast? hfront
      rw [List.getLast?_append_cons, slashes, List.replicate_zero, List.append_nil] at hlast
      exact absurd hlast.symm hbase
    | 1 =>
      have hdrop := congrArg (fun l => l.dropLast.getLast?) hfront
      rw [List.append_cons, List.dropLast_concat, List.getLast?_concat] at hdrop
      exact absurd (by simpa [slashes] using hdrop.symm) hbase
    | n + 2 => exact Nat.le_add_left 2 n
  · intro hn
    obtain ⟨n, rfl⟩ := Nat.exists_eq_add_of_le' hn
    exact ⟨base ++ slashes n, by rw [slashes_succ', slashes_succ', List.append_assoc, List.append_assoc]; rfl⟩

/-- Removing a slash from the end of a path does not change its components. -/
theorem fsRemoveLastSlash_comps {path : List UInt8} (hne : path ≠ []) :
    ∃ path', fsRemoveLastSlash path = some path' ∧ comps path' = comps path := by
  rw [fsRemoveLastSlash, if_neg hne]
  split
  · next hlast =>
    refine ⟨path.dropLast, rfl, ?_⟩
    have hconcat := List.dropLast_append_getLast? SLASH hlast
    conv => rhs; rw [← hconcat]
    exact (comps_append_slashes path.dropLast 1).symm
  · exact ⟨path, rfl, rfl⟩

/-- The array of both functions has one slash less than the path. -/
theorem intPathOf_slashes {base : List UInt8} (hne : base ≠ []) (hbase : base.getLast? ≠ some SLASH) {n : Nat}
    (hlen : (base ++ slashes n).length < MAX_FNAME) :
    intPathOf (base ++ slashes n) = some ⟨base ++ slashes (n - 1), true⟩ := by
  rw [intPathOf, strncpy, List.take_of_length_le (Nat.le_of_lt hlen), decide_eq_true hlen]
  dsimp only
  rw [fsRemoveLastSlash, if_neg (List.append_ne_nil_of_left_ne_nil hne _)]
  cases n with
  | zero =>
    rw [slashes, List.replicate_zero, List.append_nil, if_neg hbase]
    rfl
  | succ n =>
    rw [slashes_succ', ← List.append_assoc, if_pos List.getLast?_concat, List.dropLast_concat]
    rfl

/-! ## The name and the parent -/

section
variable {path dir word : List UInt8} {n : Nat}

theorem LastComponent.path_ne (h : LastComponent path dir word) : path ≠ [] := by
  rw [h.eq]
  exact List.append_ne_nil_of_right_ne_nil _ (List.cons_ne_nil _ _)

/-- The tokenizer skips all slashes behind the last component. -/
theorem LastComponent.fsGetFileName_slashes (h : LastComponent path dir word)
    (hlen : (path ++ slashes n).length < MAX_FNAME) : TalOS.fsGetFileName (path ++ slashes n) = some (some word) := by
  have hfuel : bytesLeft (some ⟨path ++ slashes (n - 1), true⟩) < (path ++ slashes (n - 1)).length + 2 :=
    Nat.lt_succ_self _
  rw [TalOS.fsGetFileName, intPathOf_slashes h.path_ne h.getLast? hlen, Option.bind_some,
    lastToken_eq (by simp) hfuel, compsLeft, comps_append_slashes, h.comps, List.getLast?_concat]
  rfl

/-- One slash more at the end is the one that is removed. -/
theorem LastComponent.fsGetParentPath_one (h : LastComponent path dir word) (hlen : path.length + 1 < MAX_FNAME) :
    TalOS.fsGetParentPath (path ++ slashes 1) = TalOS.fsGetParentPath path := by
  have hlen' : (path ++ slashes 1).length < MAX_FNAME := by
    rwa [List.length_append, length_slashes]
  have hsame : TalOS.intPathOf (path ++ slashes 1) = TalOS.intPathOf path := by
    rw [intPathOf_slashes h.path_ne h.getLast? hlen', h.intPathOf (Nat.lt_of_succ_lt hlen)]
    rw [Nat.sub_self, slashes, List.replicate_zero, List.append_nil]
  rw [TalOS.fsGetParentPath, TalOS.fsGetParentPath, TalOS.fsGetFileName, TalOS.fsGetFileName, hsame]

/-- What is left of the array once as many characters as the name has are taken off its end. -/
theorem LastComponent.take_slashes (h : LastComponent path dir word) (n : Nat) :
    (path ++ slashes n).take ((path ++ slashes n).length - word.length) =
      dir ++ SLASH :: (word.take n ++ slashes (n - word.length)) := by
  have hcut : path ++ slashes n = (dir ++ [SLASH]) ++ (word ++ slashes n) := by
    simp [h.eq]
  have hlength : (path ++ slashes n).length - word.length = (dir ++ [SLASH]).length + n := by
    rw [hcut]
    simp only [List.length_append, length_slashes]
    omega
  rw [hlength, hcut, List.take_length_add_append, List.take_append, slashes, List.take_replicate,
    Nat.min_eq_left (Nat.sub_le _ _), ← slashes, List.append_assoc, List.singleton_append]

theorem LastComponent.comps_kept (h : LastComponent path dir word) (n k : Nat) :
    TalOS.comps (dir ++ SLASH :: (word.take (n + 1) ++ slashes k)) = TalOS.comps dir ++ [word.take (n + 1)] := by
  have hslash : SLASH ∉ word.take (n + 1) := fun hmem => h.slash (List.mem_of_mem_take hmem)
  have hne : word.take (n + 1) ≠ [] := by simp [h.ne]
  rw [comps_append_slash, comps_append_slashes, comps_of_no_slash hslash, if_neg hne]

/-- With `n + 1` slashes left behind it, the first `n + 1` characters of the name stay in the parent. -/
theorem LastComponent.fsGetParentPath_slashes (h : LastComponent path dir word)
    (hlen : (path ++ slashes (n + 2)).length < MAX_FNAME) :
    ∃ parent, TalOS.fsGetParentPath (path ++ slashes (n + 2)) = some (some parent) ∧
      TalOS.comps parent = TalOS.comps dir ++ [word.take (n + 1)] := by
  have hname := h.fsGetFileName_slashes hlen
  have hint : TalOS.intPathOf (path ++ slashes (n + 2)) = some ⟨path ++ slashes (n + 1), true⟩ :=
    intPathOf_slashes h.path_ne h.getLast? hlen
  have hword : min word.length MAX_FNAME = word.length := by
    have hlength := congrArg List.length h.eq
    simp only [List.length_append, List.length_cons] at hlength hlen
    omega
  have htake := h.take_slashes (n + 1)
  -- It is longer than the path of the root, so a slash at its end is removed.
  have hlong : (dir ++ SLASH :: (word.take (n + 1) ++ slashes (n + 1 - word.length))).length ≠ 1 := by
    have hpos := List.length_pos_iff.mpr h.ne
    simp only [List.length_append, List.length_cons, List.length_take]
    omega
  have hkept := h.comps_kept n (n + 1 - word.length)
  obtain ⟨parent, hremoved, hsame⟩ := fsRemoveLastSlash_comps
    (List.append_ne_nil_of_right_ne_nil dir (List.cons_ne_nil SLASH _))
  refine ⟨parent, ?_, hsame.trans hkept⟩
  rw [TalOS.fsGetParentPath, hname, hint, Option.bind_some, Option.bind_some]
  dsimp only
  rw [hword, htake, if_pos hlong, hremoved]
  rfl

/-- Looking the name up in the parent is following the path. -/
theorem LastComponent.fsFind_parent (h : LastComponent path dir word) (habs : path.head? = some SLASH)
    (hlen : (path ++ slashes n).length < MAX_PATH) {s : Ramfs} {x : Nat}
    (hget : fsGetNode s 0 (if dir = [] then [SLASH] else dir) = some x) (hx : x ≠ 0) :
    fsFind s x word = fsGetNode s 0 (path ++ slashes n) := by
  have hshort : (if dir = [] then [SLASH] else dir).length < MAX_PATH := by
    have hlength := congrArg List.length h.eq
    rw [List.length_append] at hlength hlen
    split
    · decide
    · omega
  have hcomps : TalOS.comps (if dir = [] then [SLASH] else dir) = TalOS.comps dir := by
    split
    · next hnil => rw [hnil]; rfl
    · rfl
  have hhead : (if dir = [] then [SLASH] else dir).head? = some SLASH := by
    split
    · rfl
    · next hne => rwa [h.eq, List.head?_append_of_ne_nil _ hne] at habs
  have habs' : (path ++ slashes n).head? = some SLASH := by
    rwa [List.head?_append_of_ne_nil _ h.path_ne]
  rw [fsGetNode_eq_fold hshort, hcomps, pathStart, if_pos hhead] at hget
  rw [fsGetNode_eq_fold hlen, comps_append_slashes, h.comps, List.foldlM_append, pathStart, if_pos habs', hget]
  simp [findStep_ne hx]

end

/-- For every absolute path with a component: nothing is lost exactly if the path does not end in two slashes. -/
theorem splitsPath_iff (path : List UInt8) (hlen : path.length < MAX_FNAME) (habs : path.head? = some SLASH)
    (hcomps : comps path ≠ []) : SplitsPath path ↔ ¬ [SLASH, SLASH] <:+ path := by
  obtain ⟨base, n, rfl, hbase⟩ := exists_slashes path
  have hne : base ≠ [] := by
    rintro rfl
    exact hcomps (comps_slashes n)
  rw [List.head?_append_of_ne_nil _ hne] at habs
  obtain ⟨dir, word, h⟩ := exists_lastComponent habs hbase
  rw [two_slashes_suffix_iff hbase, Nat.not_le]
  constructor
  · rintro ⟨name, parent, -, -, hparent, hdropLast, -⟩
    by_contra hn
    obtain ⟨n, rfl⟩ := Nat.exists_eq_add_of_le' (Nat.not_lt.mp hn)
    obtain ⟨parent', hparent', hkept⟩ := h.fsGetParentPath_slashes hlen
    obtain rfl : parent = parent' := Option.some.inj (Option.some.inj (hparent.symm.trans hparent'))
    rw [hkept, comps_append_slashes, h.comps, List.dropLast_concat] at hdropLast
    simp at hdropLast
  · intro hn
    have hshort : (base ++ slashes n).length < MAX_PATH := Nat.lt_trans hlen (by decide)
    have hparent : fsGetParentPath (base ++ slashes n) = some (some (if dir = [] then [SLASH] else dir)) := by
      rw [List.length_append, length_slashes] at hlen
      match n with
      | 0 => rw [slashes, List.replicate_zero, List.append_nil, h.fsGetParentPath hlen]
      | 1 => rw [h.fsGetParentPath_one hlen, h.fsGetParentPath (Nat.lt_of_succ_lt hlen)]
    refine ⟨word, _, h.fsGetFileName_slashes hlen, ?_, hparent, ?_, fun s x hget hx =>
      h.fsFind_parent habs hshort hget hx⟩
    · rw [comps_append_slashes, h.comps, List.getLast?_concat]
    · rw [comps_append_slashes, h.comps, List.dropLast_concat]
      split
      · next hnil => rw [hnil]; rfl
      · rfl

/-- Nothing is lost of `"//a/b/"`. -/
theorem splitsPath_iff_trailingSlash : SplitsPath [SLASH, SLASH, 0x61, SLASH, 0x62, SLASH] :=
  (splitsPath_iff _ (by decide) rfl (by decide)).mpr (by decide)

/-- The parent of `"/a//"` is not the root but `"/a"`. -/
theorem not_splitsPath_twoSlashes :
    comps [SLASH, 0x61, SLASH, SLASH] = [[0x61]] ∧
      fsGetParentPath [SLASH, 0x61, SLASH, SLASH] = some (some [SLASH, 0x61]) ∧
      ¬ SplitsPath [SLASH, 0x61, SLASH, SLASH] := by
  have hrun : fsGetParentPath [SLASH, 0x61, SLASH, SLASH] = some (some [SLASH, 0x61]) := by decide
  refine ⟨by decide, hrun, ?_⟩
  rintro ⟨name, parent, -, -, hparent, hcomps, -⟩
  obtain rfl : [SLASH, 0x61] = parent := Option.some.inj (Option.some.inj (hrun.symm.trans hparent))
  exact absurd hcomps (by decide)

end TalOS
