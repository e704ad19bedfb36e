-- SUMMARY: Page directory, page tables, and `mem_map`: which entries it writes and when it refuses.
import TalOS.Lib.MachineInt
import Mathlib.Data.List.Perm.Basic
import Mathlib.Tactic.Common

/-!
# Paging

`mem_map` first looks at page-directory entries, then writes one page-table
entry per page. The directory is an array of its own; what is written into page
tables is recorded as the list of stores, so that a store through a table that
does not exist (address 0) is visible.
-/

open MachineInt

namespace TalOS

/-! ## Directory and table indices -/

def PAGE_SIZE : Nat := 0x1000
def PAGE_TAB_ENTRIES : Nat := 0x400

def PAG_IS_PRESENT : Nat := 0x1
def PAG_IS_RW : Nat := 0x2
def PAG_CACHE_DISABLE : Nat := 0x10

/-- `PAGE_ALIGN_CEIL`: the addition is a 32-bit one. -/
def pageAlignCeil (value : Nat) : Nat := u32 (value + (PAGE_SIZE - 1)) / PAGE_SIZE * PAGE_SIZE

/-- `PAGE_ALIGN_FLOOR` -/
def pageAlignFloor (value : Nat) : Nat := value / PAGE_SIZE * PAGE_SIZE

/-- `PAGE_ADDRESS` -/
def pageAddress (addr : Nat) : Nat := 0xfffff000 &&& addr

/-- `GET_PAG_DIR_INDEX` -/
def getPagDirIndex (addr : Nat) : Nat := addr / PAGE_SIZE / PAGE_TAB_ENTRIES

/-- `GET_PAG_TAB_INDEX` -/
def getPagTabIndex (addr : Nat) : Nat := addr / PAGE_SIZE % PAGE_TAB_ENTRIES

def isPresent (entry : Nat) : Bool := entry &&& PAG_IS_PRESENT == PAG_IS_PRESENT

/-! ## `mem_map` -/

/-- A 32-bit word stored at an address. -/
structure Store where
  addr : Nat
  value : Nat
deriving Repr, DecidableEq

/-- What `mem_map` leaves behind: the returned pointer (0 is `NULL`), the cell
behind `mappedSize` when the caller passed one, and the words it stored. -/
structure MapResult where
  retAddr : Nat
  mappedSize : Option Nat
  stores : List Store
deriving Repr, DecidableEq

/-- The do-while loop over `page_directory`: the value of `k` after it. -/
def checkTables (directory : Nat → Nat) (stop k : Nat) : Nat :=
  if isPresent (directory k) then
    if k + 1 < stop then checkTables directory stop (k + 1) else k + 1
  else k + 1
termination_by stop - k

/-- The protection bits of the entries `mem_map` writes. -/
def mapFlags (isWritable isCacheble : Bool) : Nat :=
  (PAG_IS_PRESENT ||| if isWritable then PAG_IS_RW else 0) |||
    if isCacheble then 0 else PAG_CACHE_DISABLE

/-- Body of the mapping loop for the `k`-th page. -/
def mapPage (directory : Nat → Nat) (phyAddress logiPageAddressStart flags k : Nat) : Store :=
  let logiPageAddressCurr := u32 (logiPageAddressStart + u32 (k * PAGE_SIZE))
  let pPageTable := pageAddress (directory (getPagDirIndex logiPageAddressCurr))
  { addr := pPageTable + 4 * getPagTabIndex logiPageAddressCurr
    value := u32 (pageAlignFloor phyAddress + u32 (k * PAGE_SIZE)) ||| flags }

/-- `mem_map`; `mappedSize` is the caller's cell, `none` for a `NULL` pointer. -/
def memMap (directory : Nat → Nat) (phyAddress logiAddress memsize : Nat)
    (isWritable isCacheble : Bool) (mappedSize : Option Nat) : MapResult :=
  let logiPageAddressStart := pageAlignFloor logiAddress
  let pagesNum := pageAlignCeil memsize / PAGE_SIZE
  let pageTabs := pagesNum / PAGE_TAB_ENTRIES
  let flags := mapFlags isWritable isCacheble
  let index := getPagDirIndex logiPageAddressStart
  if checkTables directory (index + pageTabs) index ≥ index + pageTabs then
    { retAddr := logiPageAddressStart
      mappedSize := mappedSize.map fun _ => u32 (pagesNum * PAGE_SIZE)
      stores := (List.range pagesNum).map (mapPage directory phyAddress logiPageAddressStart flags) }
  else
    { retAddr := 0, mappedSize := mappedSize.map fun _ => 0, stores := [] }

/-! ## What the check loop decides -/

/-- The loop runs to its end iff no entry before the last one it is meant to
look at is absent: `k` is already incremented when it breaks. -/
theorem le_checkTables_iff (directory : Nat → Nat) (stop k : Nat) :
    stop ≤ checkTables directory stop k ↔
      ∀ i, k ≤ i → i + 1 < stop → isPresent (directory i) = true := by
  induction k using checkTables.induct directory stop with
  | case1 k hpresent hlt ih =>
    rw [checkTables, if_pos hpresent, if_pos hlt, ih]
    constructor
    · intro h i hki hi
      rcases Nat.eq_or_lt_of_le hki with rfl | hlt'
      · exact hpresent
      · exact h i hlt' hi
    · intro h i hki hi
      exact h i (Nat.le_of_succ_le hki) hi
  | case2 k hpresent hle =>
    rw [checkTables, if_pos hpresent, if_neg hle]
    have hstop : stop ≤ k + 1 := Nat.le_of_not_lt hle
    refine iff_of_true hstop fun i hki hi => absurd hi ?_
    exact Nat.not_lt.mpr (Nat.le_trans hstop (Nat.succ_le_succ hki))
  | case3 k habsent =>
    rw [checkTables, if_neg habsent]
    constructor
    · intro hstop i hki hi
      exact absurd hi (Nat.not_lt.mpr (Nat.le_trans hstop (Nat.succ_le_succ hki)))
    · intro h
      by_contra hlt
      exact habsent (h k (Nat.le_refl k) (Nat.lt_of_not_le hlt))

/-! ## The pages of a range -/

/-- Number of the first page of the range that starts at `logiAddress`. -/
def firstPage (logiAddress : Nat) : Nat := logiAddress / PAGE_SIZE

/-- How many pages the bytes `[logiAddress, logiAddress + memsize)` touch. -/
def pageCount (logiAddress memsize : Nat) : Nat :=
  (logiAddress + memsize - 1) / PAGE_SIZE - logiAddress / PAGE_SIZE + 1

/-- The pages touched by the bytes `[logiAddress, logiAddress + memsize)`. -/
def pagesOf (logiAddress memsize : Nat) : List Nat :=
  List.range' (firstPage logiAddress) (pageCount logiAddress memsize)

/-- Every page of the range has a page table. -/
def TablesPresent (directory : Nat → Nat) (logiAddress memsize : Nat) : Prop :=
  ∀ page ∈ pagesOf logiAddress memsize, isPresent (directory (page / PAGE_TAB_ENTRIES)) = true

/-- Address of the page-table entry of a page. -/
def entryAddress (directory : Nat → Nat) (page : Nat) : Nat :=
  pageAddress (directory (page / PAGE_TAB_ENTRIES)) + 4 * (page % PAGE_TAB_ENTRIES)

/-- All or nothing: a range without all its page tables leaves everything
alone and yields `NULL`; any other range is mapped, page by page. -/
def AllOrNothing (directory : Nat → Nat) (logiAddress memsize : Nat) (mappedSize : Option Nat)
    (r : MapResult) : Prop :=
  (¬ TablesPresent directory logiAddress memsize →
    r.retAddr = 0 ∧ r.mappedSize = mappedSize.map (fun _ => 0) ∧ r.stores = []) ∧
  (TablesPresent directory logiAddress memsize →
    r.retAddr ≠ 0 ∧
      (r.stores.map Store.addr).Perm
        ((pagesOf logiAddress memsize).map (entryAddress directory)))

variable {directory : Nat → Nat} {logiAddress memsize : Nat}

theorem mem_pagesOf {page : Nat} (hsize : 1 ≤ memsize) :
    page ∈ pagesOf logiAddress memsize ↔
      firstPage logiAddress ≤ page ∧ page ≤ (logiAddress + memsize - 1) / PAGE_SIZE := by
  have hle : logiAddress / PAGE_SIZE ≤ (logiAddress + memsize - 1) / PAGE_SIZE :=
    Nat.div_le_div_right (by omega)
  simp only [pagesOf, firstPage, pageCount, List.mem_range'_1]
  omega

/-- How many pages `mem_map` maps. -/
theorem pagesNum_eq (hsize : 1 ≤ memsize) (hnowrap : memsize ≤ 2 ^ 32 - PAGE_SIZE) :
    pageAlignCeil memsize / PAGE_SIZE = (memsize - 1) / PAGE_SIZE + 1 := by
  have hsum : memsize + (PAGE_SIZE - 1) < 2 ^ 32 := by
    simp only [PAGE_SIZE] at *
    omega
  rw [pageAlignCeil, u32_of_lt hsum, Nat.mul_div_cancel _ (by decide)]
  simp only [PAGE_SIZE]
  omega

/-- The last page short of 4 GiB: rounding up wraps to zero and nothing is mapped. -/
theorem pagesNum_eq_zero (hwrap : 2 ^ 32 - PAGE_SIZE < memsize) (hsize : memsize ≤ 2 ^ 32) :
    pageAlignCeil memsize / PAGE_SIZE = 0 := by
  have hsum : u32 (memsize + (PAGE_SIZE - 1)) < PAGE_SIZE := by
    simp only [u32, PAGE_SIZE] at *
    omega
  rw [pageAlignCeil, Nat.div_eq_of_lt hsum]
  rfl

theorem pageCount_eq (hsize : 1 ≤ memsize) :
    pageCount logiAddress memsize = (logiAddress % PAGE_SIZE + memsize - 1) / PAGE_SIZE + 1 := by
  simp only [pageCount, PAGE_SIZE]
  omega

/-- `mem_map` never maps more pages than the range touches. -/
theorem pagesNum_le_pageCount (hsize : 1 ≤ memsize) (hrange : logiAddress + memsize ≤ 2 ^ 32) :
    pageAlignCeil memsize / PAGE_SIZE ≤ pageCount logiAddress memsize := by
  by_cases hnowrap : memsize ≤ 2 ^ 32 - PAGE_SIZE
  · rw [pagesNum_eq hsize hnowrap, pageCount_eq hsize]
    exact Nat.succ_le_succ (Nat.div_le_div_right (by omega))
  · rw [pagesNum_eq_zero (Nat.lt_of_not_le hnowrap) (by omega)]
    exact Nat.zero_le _

/-! ## The stores -/

theorem getPagDirIndex_page (page : Nat) : getPagDirIndex (page * PAGE_SIZE) = page / PAGE_TAB_ENTRIES := by
  rw [getPagDirIndex, Nat.mul_div_cancel _ (by decide)]

theorem getPagDirIndex_pageAlignFloor (addr : Nat) :
    getPagDirIndex (pageAlignFloor addr) = firstPage addr / PAGE_TAB_ENTRIES := getPagDirIndex_page _

/-- The address that the loops compute for the `k`-th page of the range. -/
theorem logiPageAddressCurr_eq {k : Nat} (hpage : (firstPage logiAddress + k) * PAGE_SIZE < 2 ^ 32) :
    u32 (pageAlignFloor logiAddress + u32 (k * PAGE_SIZE)) =
      (firstPage logiAddress + k) * PAGE_SIZE := by
  have hk : k * PAGE_SIZE < 2 ^ 32 := by
    rw [Nat.add_mul] at hpage
    exact Nat.lt_of_le_of_lt (Nat.le_add_left _ _) hpage
  rw [u32_of_lt hk, pageAlignFloor, ← Nat.add_mul]
  exact u32_of_lt hpage

/-- The entry that the loops address through the indices of a page's address. -/
theorem entryAddress_eq (directory : Nat → Nat) (page : Nat) :
    pageAddress (directory (getPagDirIndex (page * PAGE_SIZE))) +
        4 * getPagTabIndex (page * PAGE_SIZE) = entryAddress directory page := by
  simp only [getPagDirIndex, getPagTabIndex, entryAddress,
    Nat.mul_div_cancel _ (show 0 < PAGE_SIZE by decide)]

/-- The `k`-th store goes to the entry of the `k`-th page of the range. -/
theorem mapPage_addr {k : Nat} (phyAddress flags : Nat)
    (hpage : (firstPage logiAddress + k) * PAGE_SIZE < 2 ^ 32) :
    (mapPage directory phyAddress (pageAlignFloor logiAddress) flags k).addr =
      entryAddress directory (firstPage logiAddress + k) := by
  simp only [mapPage, logiPageAddressCurr_eq hpage, entryAddress_eq]

/-- The stores go to the entries of the first pages of the range, in order. -/
theorem stores_addr {pagesNum : Nat} (phyAddress flags : Nat) (hsize : 1 ≤ memsize)
    (hrange : logiAddress + memsize ≤ 2 ^ 32) (hle : pagesNum ≤ pageCount logiAddress memsize) :
    ((List.range pagesNum).map
        (mapPage directory phyAddress (pageAlignFloor logiAddress) flags)).map Store.addr =
      (List.range' (firstPage logiAddress) pagesNum).map (entryAddress directory) := by
  rw [List.range'_eq_map_range, List.map_map, List.map_map]
  refine List.map_congr_left fun k hk => mapPage_addr phyAddress flags ?_
  have hk' : k < pageCount logiAddress memsize :=
    Nat.lt_of_lt_of_le (List.mem_range.mp hk) hle
  simp only [firstPage, pageCount, PAGE_SIZE] at hk' ⊢
  omega

/-! ## All or nothing -/

/-- The check passes iff the directory entries it really looks at are present:
one fewer than the whole tables the range's size fills. -/
theorem check_iff {index pageTabs : Nat} :
    index + pageTabs ≤ checkTables directory (index + pageTabs) index ↔
      ∀ i, i + 1 < pageTabs → isPresent (directory (index + i)) = true := by
  rw [le_checkTables_iff]
  constructor
  · intro h i hi
    exact h (index + i) (Nat.le_add_right _ _) (by omega)
  · intro h i hki hi
    obtain ⟨d, rfl⟩ := Nat.exists_eq_add_of_le hki
    exact h d (by omega)

/-- A range with all its page tables passes the check. -/
theorem TablesPresent.check (h : TablesPresent directory logiAddress memsize) (hsize : 1 ≤ memsize)
    (hrange : logiAddress + memsize ≤ 2 ^ 32) {i : Nat}
    (hi : i + 1 < pageAlignCeil memsize / PAGE_SIZE / PAGE_TAB_ENTRIES) :
    isPresent (directory (firstPage logiAddress / PAGE_TAB_ENTRIES + i)) = true := by
  have hcount := pagesNum_le_pageCount hsize hrange
  have htab : (firstPage logiAddress + PAGE_TAB_ENTRIES * i) / PAGE_TAB_ENTRIES =
      firstPage logiAddress / PAGE_TAB_ENTRIES + i := Nat.add_mul_div_left _ _ (by decide)
  have hmem : firstPage logiAddress + PAGE_TAB_ENTRIES * i ∈ pagesOf logiAddress memsize := by
    rw [pagesOf, List.mem_range'_1]
    refine ⟨Nat.le_add_right _ _, Nat.add_lt_add_left (Nat.lt_of_lt_of_le ?_ hcount) _⟩
    have hdiv := Nat.div_mul_le_self (pageAlignCeil memsize / PAGE_SIZE) PAGE_TAB_ENTRIES
    refine Nat.lt_of_lt_of_le ?_ hdiv
    rw [Nat.mul_comm]
    exact Nat.mul_lt_mul_of_pos_right (by omega) (by decide)
  rw [← htab]
  exact h _ hmem

/-- The two ways `mem_map` ends. -/
theorem memMap_cases (directory : Nat → Nat) (phyAddress logiAddress memsize : Nat)
    (isWritable isCacheble : Bool) (mappedSize : Option Nat) :
    (∃ i, i + 1 < pageAlignCeil memsize / PAGE_SIZE / PAGE_TAB_ENTRIES ∧
        isPresent (directory (firstPage logiAddress / PAGE_TAB_ENTRIES + i)) = false) ∧
      memMap directory phyAddress logiAddress memsize isWritable isCacheble mappedSize =
        ⟨0, mappedSize.map fun _ => 0, []⟩ ∨
    (∀ i, i + 1 < pageAlignCeil memsize / PAGE_SIZE / PAGE_TAB_ENTRIES →
        isPresent (directory (firstPage logiAddress / PAGE_TAB_ENTRIES + i)) = true) ∧
      memMap directory phyAddress logiAddress memsize isWritable isCacheble mappedSize =
        ⟨pageAlignFloor logiAddress,
          mappedSize.map fun _ => u32 (pageAlignCeil memsize / PAGE_SIZE * PAGE_SIZE),
          (List.range (pageAlignCeil memsize / PAGE_SIZE)).map
            (mapPage directory phyAddress (pageAlignFloor logiAddress)
              (mapFlags isWritable isCacheble))⟩ := by
  simp only [memMap, ge_iff_le, getPagDirIndex_pageAlignFloor]
  split
  case isTrue hcheck => exact .inr ⟨check_iff.mp hcheck, rfl⟩
  case isFalse hcheck =>
    rw [check_iff] at hcheck
    push Not at hcheck
    obtain ⟨i, hi, habsent⟩ := hcheck
    exact .inl ⟨⟨i, hi, Bool.eq_false_iff.mpr habsent⟩, rfl⟩

/-- The start page is not page 0. -/
theorem pageAlignFloor_ne_zero : pageAlignFloor logiAddress ≠ 0 ↔ PAGE_SIZE ≤ logiAddress := by
  simp only [pageAlignFloor, PAGE_SIZE]
  omega

/-- With all its page tables there, a range is mapped completely iff its start
page is not page 0 and its offset in that page costs no further page. -/
theorem memMap_of_present (h : TablesPresent directory logiAddress memsize) (hsize : 1 ≤ memsize)
    (hrange : logiAddress + memsize ≤ 2 ^ 32) (phyAddress : Nat) (isWritable isCacheble : Bool)
    (mappedSize : Option Nat) :
    ((memMap directory phyAddress logiAddress memsize isWritable isCacheble mappedSize).retAddr ≠ 0 ∧
      ((memMap directory phyAddress logiAddress memsize isWritable isCacheble
          mappedSize).stores.map Store.addr).Perm
        ((pagesOf logiAddress memsize).map (entryAddress directory))) ↔
      PAGE_SIZE ≤ logiAddress ∧
        (logiAddress % PAGE_SIZE + memsize - 1) / PAGE_SIZE = (memsize - 1) / PAGE_SIZE := by
  rcases memMap_cases directory phyAddress logiAddress memsize isWritable isCacheble mappedSize with
    ⟨⟨i, hi, habsent⟩, -⟩ | ⟨-, hmap⟩
  · exact absurd (h.check hsize hrange hi) (by simp [habsent])
  rw [hmap, pageAlignFloor_ne_zero,
    stores_addr phyAddress _ hsize hrange (pagesNum_le_pageCount hsize hrange)]
  refine and_congr_right fun hstart => ?_
  have hnowrap : memsize ≤ 2 ^ 32 - PAGE_SIZE := by omega
  rw [pagesNum_eq hsize hnowrap]
  constructor
  · intro hperm
    have hlen := hperm.length_eq
    simp only [pagesOf, List.length_map, List.length_range'] at hlen
    rw [pageCount_eq hsize] at hlen
    exact (Nat.succ.inj hlen).symm
  · intro hoffset
    rw [pagesOf, pageCount_eq hsize, hoffset]

/-- `mem_map` leaves everything alone iff an absent entry is among those the
check looks at, or the range is so large that rounding its size up wraps to no
page at all. -/
theorem memMap_untouched_iff (directory : Nat → Nat) (hsize : 1 ≤ memsize)
    (hrange : logiAddress + memsize ≤ 2 ^ 32) (phyAddress : Nat) (isWritable isCacheble : Bool)
    (mappedSize : Option Nat) :
    ((memMap directory phyAddress logiAddress memsize isWritable isCacheble mappedSize).retAddr = 0 ∧
      (memMap directory phyAddress logiAddress memsize isWritable isCacheble
          mappedSize).mappedSize = mappedSize.map (fun _ => 0) ∧
      (memMap directory phyAddress logiAddress memsize isWritable isCacheble
          mappedSize).stores = []) ↔
      2 ^ 32 - PAGE_SIZE < memsize ∨
        ∃ i, i + 1 < pageAlignCeil memsize / PAGE_SIZE / PAGE_TAB_ENTRIES ∧
          isPresent (directory (firstPage logiAddress / PAGE_TAB_ENTRIES + i)) = false := by
  rcases memMap_cases directory phyAddress logiAddress memsize isWritable isCacheble mappedSize with
    ⟨hseen, hmap⟩ | ⟨hunseen, hmap⟩
  · rw [hmap]
    exact iff_of_true ⟨rfl, rfl, rfl⟩ (.inr hseen)
  rw [hmap]
  constructor
  · rintro ⟨-, -, hstores⟩
    refine .inl (Nat.lt_of_not_le fun hnowrap => ?_)
    rw [pagesNum_eq hsize hnowrap, List.range_succ, List.map_append] at hstores
    exact absurd (List.append_eq_nil_iff.mp hstores).2 (List.cons_ne_nil _ _)
  · rintro (hwrap | ⟨i, hi, habsent⟩)
    · have hstart : pageAlignFloor logiAddress = 0 :=
        not_not.mp (mt pageAlignFloor_ne_zero.mp (by simp only [PAGE_SIZE] at *; omega))
      rw [pagesNum_eq_zero hwrap (by omega), hstart]
      exact ⟨rfl, rfl, rfl⟩
    · exact absurd (hunseen i hi) (by simp [habsent])

/-- When `mem_map` is all or nothing. With all page tables there, the start page
must not be page 0 (its address is `NULL`) and the offset in it must not push the
end onto one more page. With one missing, the check must see it. -/
theorem memMap_allOrNothing_iff (directory : Nat → Nat) (phyAddress logiAddress memsize : Nat)
    (isWritable isCacheble : Bool) (mappedSize : Option Nat) (hsize : 1 ≤ memsize)
    (hrange : logiAddress + memsize ≤ 2 ^ 32) :
    AllOrNothing directory logiAddress memsize mappedSize
        (memMap directory phyAddress logiAddress memsize isWritable isCacheble mappedSize) ↔
      (TablesPresent directory logiAddress memsize →
        PAGE_SIZE ≤ logiAddress ∧
          (logiAddress % PAGE_SIZE + memsize - 1) / PAGE_SIZE = (memsize - 1) / PAGE_SIZE) ∧
      (¬ TablesPresent directory logiAddress memsize →
        2 ^ 32 - PAGE_SIZE < memsize ∨
          ∃ i, i + 1 < pageAlignCeil memsize / PAGE_SIZE / PAGE_TAB_ENTRIES ∧
            isPresent (directory (firstPage logiAddress / PAGE_TAB_ENTRIES + i)) = false) := by
  rw [AllOrNothing, and_comm]
  refine and_congr (forall_congr' fun h => ?_) (forall_congr' fun _ => ?_)
  · exact memMap_of_present h hsize hrange phyAddress isWritable isCacheble mappedSize
  · exact memMap_untouched_iff directory hsize hrange phyAddress isWritable isCacheble mappedSize

/-- Two pages at 1 GiB under a complete directory. -/
theorem memMap_allOrNothing_two_pages :
    AllOrNothing (fun _ => 0x100001) 0x40000000 0x2000 none
      (memMap (fun _ => 0x100001) 0 0x40000000 0x2000 true true none) :=
  (memMap_allOrNothing_iff (fun _ => 0x100001) 0 0x40000000 0x2000 true true none
    (by decide) (by decide)).mpr
    ⟨fun _ => by decide, fun h => absurd (fun _ _ => show isPresent 0x100001 = true by decide) h⟩

/-- One page at 1 GiB under an empty directory: the check looks at the missing
entry, breaks, and passes; the entry is written through the table at address 0. -/
theorem memMap_through_missing_table :
    ¬ AllOrNothing (fun _ => 0) 0x40000000 1 none
        (memMap (fun _ => 0) 0 0x40000000 1 true true none) := by
  intro h
  have habsent : ¬ TablesPresent (fun _ => 0) 0x40000000 1 := by
    intro hpresent
    exact absurd (hpresent 0x40000 (by decide)) (by decide)
  have hnothing := (memMap_untouched_iff _ (by decide) (by decide) 0 true true none).mp
    (h.1 habsent)
  rcases hnothing with hwrap | ⟨i, hi, -⟩
  · exact absurd hwrap (by decide)
  · exact absurd hi (by simp [pageAlignCeil, u32, PAGE_SIZE, PAGE_TAB_ENTRIES])

end TalOS
