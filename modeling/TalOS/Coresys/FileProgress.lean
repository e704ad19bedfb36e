-- SUMMARY: Which calls of ramfs succeed: those that the hierarchy allows and for which there is memory.
import TalOS.Coresys.FileRuns

/-!
# Calls that succeed

A call fails for one of two reasons: the hierarchy has no such change, or the heap has no room
for the nodes or for the longer file.
-/

open MachineInt

namespace TalOS

open Hierarchy

variable {s s' : Ramfs} {T : Forest Nat} {x P node offset : Nat} {name path buf : List UInt8}
  {p : List (List UInt8)} {fs : Files}

/-- There is memory for what the call makes. -/
def RamfsOp.HasRoom : RamfsOp → Ramfs → Prop
  | .mkDir _ _, s => s.Fits (3 * SIZEOF_NODE)
  | .newRegFile _ _, s => s.Fits SIZEOF_NODE
  | .write path buf offset, s => ∀ node, fsGetNode s 0 path = some node →
    buf.length + offset ≤ (s.node node).length ∨ ¬ s.heap.Refuses (u32 (buf.length + offset))
  | .deleteNode _, _ => True

/-- The path that a call follows. -/
def RamfsOp.target : RamfsOp → List UInt8
  | .mkDir _ path | .newRegFile _ path | .write path _ _ | .deleteNode path => path

/-! ## Creations -/

/-- Strings, the second short, are equal if `strncmp` says so. -/
theorem strncmp_string {a b : List UInt8} (ha : 0 ∉ a) (hb : 0 ∉ b) (hshort : b.length < MAX_FNAME)
    (hcmp : strncmp (stringBytes a) (stringBytes b) MAX_FNAME 0 = 0) : a = b := by
  rw [strncmp_eq_zero_iff] at hcmp
  simp only [Nat.zero_add] at hcmp
  obtain ⟨k, hk, hpre, heq, hstop⟩ := hcmp
  have hin {j : Nat} (hj : j < k) : j < a.length ∧ j < b.length :=
    ⟨(stringBytes_ne_zero ha).mp (hpre j hj).1, (stringBytes_ne_zero hb).mp ((hpre j hj).2 ▸ (hpre j hj).1)⟩
  have hkb : k ≤ b.length := Nat.not_lt.mp fun hgt => Nat.lt_irrefl _ (hin hgt).2
  have hzero := hstop (Nat.lt_of_le_of_lt hkb hshort)
  have hka : k ≤ a.length := Nat.not_lt.mp fun hgt => Nat.lt_irrefl _ (hin hgt).1
  have hla : a.length = k := by
    refine Nat.le_antisymm (Nat.not_lt.mp fun hlt => ?_) hka
    exact (stringBytes_ne_zero ha).mpr hlt hzero
  have hlb : b.length = k := by
    refine Nat.le_antisymm (Nat.not_lt.mp fun hlt => ?_) hkb
    exact (stringBytes_ne_zero hb).mpr hlt (heq ▸ hzero)
  refine List.ext_getElem (hla.trans hlb.symm) fun j hj hj' => ?_
  have hsame := (hpre j (hla ▸ hj)).2
  rwa [stringBytes_of_lt hj, stringBytes_of_lt hj'] at hsame

theorem fsCheckFileName_plain (hname : PlainName name) (hslash : SLASH ∉ name) : fsCheckFileName name = true := by
  refine decide_eq_true ⟨fun hdot => hname.2.1 ?_, fun hdotdot => hname.2.2 ?_, ?_⟩
  · exact strncmp_string hname.1 (by decide) (by decide) hdot
  · exact strncmp_string hname.1 (by decide) (by decide) hdotdot
  · exact fun hmem => hslash (List.mem_of_mem_take hmem)

/-- A creation that the hierarchy allows passes the checks. -/
theorem TidyTree.creationParent_allowed (ht : TidyTree s T) (hpath : 0 ∉ path) (hlen : path.length < MAX_PATH)
    (habs : path.head? = some SLASH) {e : Entry (List UInt8)} (hmake : ((filesOf s T).make name path e).isSome) :
    ∃ P, creationParent s name path = some (.ok, P) := by
  unfold Files.make at hmake
  split at hmake
  · next hlegal =>
    rcases ht.fsGetNode_lookup hpath hlen habs with ⟨-, hlookup⟩ | ⟨x, p, hx, hget, hlookup, hplace⟩
    · rw [hlookup] at hmake
      cases hmake
    · rw [hlookup, Option.bind_some, create] at hmake
      split at hmake
      · next hfree =>
        have hdir := (hplace.directory ht.tree).mp hfree.1
        have hstep : stepOf name = .entry name := by
          rw [stepOf, if_neg hlegal.1.2.1, if_neg hlegal.1.2.2]
        have hfind : findIn s T x name = 0 := by
          rcases ht.place_step hplace hlegal.1.1 hdir with ⟨hzero, -⟩ | ⟨-, hsome, -⟩
          · exact hzero
          · rw [hstep, go, hfree.2] at hsome
            cases hsome
        refine ⟨x, ?_⟩
        rw [creationParent, if_neg (by rw [fsCheckFileName_plain hlegal.1 hlegal.2]; decide), hget,
          Option.bind_some, if_neg hx, ht.tree.fsFind hplace.mem, Option.bind_some, hfind]
        rfl
      · cases hmake
  · cases hmake

theorem FileTree.mkDir_succeeds_iff (h : FileTree s T) (hstep : (RamfsOp.mkDir name path).step s = some s') :
    (RamfsOp.mkDir name path).succeeds s ↔
      (∃ P, TalOS.creationParent s name path = some (.ok, P)) ∧ s.Fits (3 * SIZEOF_NODE) := by
  obtain ⟨⟨s₁, x, err⟩, hrun, -⟩ := Option.map_eq_some_iff.mp hstep
  rw [RamfsOp.succeeds, hrun, Option.any_some, decide_eq_true_eq]
  constructor
  · rintro herr
    rcases h.mkDir hrun with ⟨-, hfailed, -⟩ | ⟨-, P, s₂, hparent, -, -⟩
    · exact absurd herr hfailed
    · refine ⟨⟨P, hparent⟩, ?_⟩
      rcases ramfsMkDir_cases h.heap hparent with ⟨_, _, -, hfail, -⟩ | ⟨hfits, -⟩
      · rw [hrun] at hfail
        obtain ⟨-, -, rfl⟩ : s₁ = _ ∧ x = 0 ∧ err = .nok := by simpa using hfail
        cases herr
      · exact hfits
  · rintro ⟨⟨P, hparent⟩, hfits⟩
    rcases ramfsMkDir_cases h.heap hparent with ⟨_, k, hk, -, hroom⟩ | ⟨-, s₂, d, -, hmade⟩
    · have hfull := hroom.full
      unfold Ramfs.Fits at hfits
      have hmono : (k + 1) * SIZEOF_NODE ≤ 3 * SIZEOF_NODE := Nat.mul_le_mul_right _ hk
      omega
    · rw [hrun] at hmade
      obtain ⟨s₃, -, hpair⟩ := Option.map_eq_some_iff.mp hmade.symm
      exact (congrArg (fun r => r.2.2) hpair).symm

theorem FileTree.newRegFile_succeeds_iff (h : FileTree s T)
    (hstep : (RamfsOp.newRegFile name path).step s = some s') :
    (RamfsOp.newRegFile name path).succeeds s ↔
      (∃ P, TalOS.creationParent s name path = some (.ok, P)) ∧ s.Fits SIZEOF_NODE := by
  obtain ⟨⟨s₁, x, err⟩, hrun, -⟩ := Option.map_eq_some_iff.mp hstep
  rw [RamfsOp.succeeds, hrun, Option.any_some, decide_eq_true_eq]
  constructor
  · rintro herr
    rcases h.newRegFile hrun with ⟨-, hfailed, -⟩ | ⟨-, P, s₂, hparent, -, -⟩
    · exact absurd herr hfailed
    · refine ⟨⟨P, hparent⟩, ?_⟩
      rcases h.newRegFile_cases hparent with ⟨-, _, hfail, -⟩ | ⟨hfits, -⟩
      · rw [hrun] at hfail
        obtain ⟨-, -, rfl⟩ : s₁ = _ ∧ x = 0 ∧ err = .nok := by simpa using hfail
        cases herr
      · exact hfits
  · rintro ⟨⟨P, hparent⟩, hfits⟩
    rcases h.newRegFile_cases hparent with ⟨hfull, -⟩ | ⟨-, s₂, d, -, hmade⟩
    · unfold Ramfs.Fits at hfits
      omega
    · rw [hrun] at hmade
      obtain ⟨s₃, -, hpair⟩ := Option.map_eq_some_iff.mp hmade.symm
      exact (congrArg (fun r => r.2.2) hpair).symm

/-! ## Writes -/

/-- A write that is accepted fails only for want of memory. -/
theorem IsRegFile.write_refuses (h : IsRegFile s node) (hok : s.heap.Ok) (hoff : offset ≤ (s.node node).length)
    (hrun : ramfsWrite s node buf offset = some (s', (-1 : Int))) :
    (s.node node).length < buf.length + offset ∧ s.heap.Refuses (u32 (buf.length + offset)) := by
  have hcast (m : Nat) : (-1 : Int) ≠ m := by omega
  unfold ramfsWrite at hrun
  rw [if_neg (h.accepted hoff)] at hrun
  dsimp only at hrun
  split at hrun
  · next hgrow =>
    refine ⟨Nat.lt_of_lt_of_le hgrow (Nat.mod_le _ _), ?_⟩
    rw [krealloc_eq s.heap (s.node node).filePtr (Nat.zero_lt_of_lt hgrow)] at hrun
    dsimp only at hrun
    split at hrun
    · next hzero => exact (kmalloc_eq_zero_iff hok).mp hzero
    · split at hrun
      · cases hrun
      · obtain ⟨s₁, -, hpair⟩ := Option.map_eq_some_iff.mp hrun
        exact absurd (Prod.mk.inj hpair).2.symm (hcast _)
  · split at hrun
    · cases hrun
    · exact absurd (Prod.mk.inj (Option.some.inj hrun)).2.symm (hcast _)

/-- A file that the hierarchy has at the place of a path is what the path leads to. -/
theorem TidyTree.get_file (ht : TidyTree s T) (hpath : 0 ∉ path) (hlen : path.length < MAX_PATH)
    (habs : path.head? = some SLASH) {bytes : List UInt8} (hlookup : (filesOf s T).lookup path = some p)
    (hfile : filesOf s T p = some (.file bytes)) :
    ∃ node, fsGetNode s 0 path = some node ∧ IsRegFile s node ∧ (s.node node).length = bytes.length := by
  rcases ht.fsGetNode_lookup hpath hlen habs with ⟨-, hnone⟩ | ⟨x, q, hx, hget, hlookup', hplace⟩
  · rw [hlookup] at hnone
    cases hnone
  · rw [hlookup] at hlookup'
    obtain rfl := Option.some.inj hlookup'
    have hmem := ht.tree.resolve_mem hplace.mem
    rw [filesOf_plain hplace.plain, hplace.walk, entryOf, if_neg (ht.tree.ne_zero hmem)] at hfile
    have hself : resolve s x = x := by
      refine resolve_of_ne fun hlink => ?_
      have hdir := (ht.tree.link_target hplace.mem hlink).2
      rw [resolve, if_pos hlink, hdir] at hfile
      cases hfile
    rw [hself] at hfile hmem
    split at hfile
    · cases hfile
    · next hregular =>
      refine ⟨x, hget, ht.tree.isRegFile hmem hregular, ?_⟩
      injection hfile with hentry
      injection hentry with hbytes
      rw [← hbytes, Memory.length_readAt]
    · cases hfile

theorem TidyTree.write_succeeds_iff (ht : TidyTree s T) (hb : BuffersOk s T)
    (hclean : (KernelOp.ramfs (.write path buf offset)).Clean s) (hlen : path.length < MAX_PATH)
    (habs : path.head? = some SLASH) (hstep : (RamfsOp.write path buf offset).step s = some s') :
    (RamfsOp.write path buf offset).succeeds s ↔
      ((RamfsOp.write path buf offset).change (filesOf s T)).isSome ∧
        (RamfsOp.write path buf offset).HasRoom s := by
  obtain ⟨node, hget, hwrite⟩ := Option.bind_eq_some_iff.mp hstep
  obtain ⟨⟨s₁, n⟩, hrun, rfl⟩ := Option.map_eq_some_iff.mp hwrite
  rw [RamfsOp.succeeds, hget, Option.any_some, hrun, Option.any_some, decide_eq_true_eq]
  constructor
  · intro hn
    obtain ⟨fs, hchange, -⟩ := ht.write_represents hb hclean hget hrun
    rw [if_pos hn] at hchange
    refine ⟨hchange ▸ rfl, fun node' hget' => ?_⟩
    rw [hget] at hget'
    obtain rfl := Option.some.inj hget'
    rcases ramfsWrite_cases ht.tree.heap hrun with ⟨hfail, -⟩ | ⟨-, ⟨hfit, -⟩ | hgrown⟩
    · exact absurd hfail hn
    · exact .inl hfit
    · have hlt : buf.length + offset < 2 ^ 32 := by
        have hroom := hgrown.room.1
        have hbytes := le_roundUp (buf.length + offset)
        have hhigh := ht.tree.heap.high
        rw [← roundUp] at hroom
        omega
      refine .inr fun hrefuse => ?_
      have hzero := (kmalloc_eq_zero_iff ht.tree.heap).mpr hrefuse
      rw [u32_of_lt hlt, kmalloc_of_room hgrown.room] at hzero
      exact ht.tree.heap.pointer_ne hzero
  · rintro ⟨hsome, hroom⟩ hn
    subst hn
    rw [RamfsOp.change, Option.isSome_bind] at hsome
    obtain ⟨p, hlookup, hmodify⟩ := (Option.any_eq_true ..).mp hsome
    unfold Hierarchy.modify at hmodify
    split at hmodify
    · next bytes hfile =>
      rw [Option.isSome_map] at hmodify
      dsimp only at hmodify
      split at hmodify
      · next hoff =>
        obtain ⟨x, hget', hreg, hbytes⟩ := ht.get_file hclean.1 hlen habs hlookup hfile
        rw [hget] at hget'
        obtain rfl := Option.some.inj hget'
        obtain ⟨hlonger, hrefuse⟩ := hreg.write_refuses ht.tree.heap (hbytes ▸ hoff) hrun
        exact (hroom node hget).elim (fun hfit => Nat.not_lt.mpr hfit hlonger) fun hnot => hnot hrefuse
      · cases hmodify
    · cases hmodify

/-! ## All calls that add -/

/-- A creation or a write succeeds exactly if the hierarchy allows it and there is memory for it. -/
theorem Represents.succeeds_iff {op : RamfsOp} (h : Represents s fs) (hdelete : ∀ path, op ≠ .deleteNode path)
    (hclean : (KernelOp.ramfs op).Clean s) (hlen : op.target.length < MAX_PATH)
    (habs : op.target.head? = some SLASH) (hstep : op.step s = some s') :
    op.succeeds s ↔ (op.change fs).isSome ∧ op.HasRoom s := by
  obtain ⟨T, ht, hb, rfl⟩ := h
  have hchange (hok : op.succeeds s = true) : (op.change (filesOf s T)).isSome := by
    obtain ⟨fs, hfs, -⟩ := KernelOp.represents_step hclean ⟨T, ht, hb, rfl⟩
      (show (KernelOp.ramfs op).step s = some s' from hstep)
    rw [KernelOp.change, if_pos hok] at hfs
    exact hfs ▸ rfl
  cases op with
  | mkDir name path =>
    have hiff := ht.tree.mkDir_succeeds_iff hstep
    constructor
    · exact fun hok => ⟨hchange hok, (hiff.mp hok).2⟩
    · rintro ⟨hallowed, hroom⟩
      exact hiff.mpr ⟨ht.creationParent_allowed hclean.2.1 hlen habs hallowed, hroom⟩
  | newRegFile name path =>
    have hiff := ht.tree.newRegFile_succeeds_iff hstep
    constructor
    · exact fun hok => ⟨hchange hok, (hiff.mp hok).2⟩
    · rintro ⟨hallowed, hroom⟩
      exact hiff.mpr ⟨ht.creationParent_allowed hclean.2.1 hlen habs hallowed, hroom⟩
  | write path buf offset => exact ht.write_succeeds_iff hb hclean hlen habs hstep
  | deleteNode path => exact absurd rfl (hdelete path)

end TalOS
