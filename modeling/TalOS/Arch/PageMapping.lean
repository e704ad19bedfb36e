-- SUMMARY: `is_mapped` and `mem_unmap`, and how they agree with `mem_map` on the page tables in memory.
import TalOS.Arch.Paging
import Mathlib.Data.List.Nodup
import Mathlib.Logic.Function.Basic

/-!
# Mapping, querying and unmapping

The page tables are words in memory, reached through the page directory. The
three functions each walk over the pages of a range; here the stores of
`mem_map` and `mem_unmap` are applied to the memory that `is_mapped` reads.
-/

open MachineInt

namespace TalOS

/-! ## The code -/

def PAGE_DIR_LEN : Nat := 1024

/-- The memory after the stores, the first one first. -/
def applyStores (tables : Nat → Nat) (stores : List Store) : Nat → Nat :=
  stores.foldl (fun memory s => Function.update memory s.addr s.value) tables

/-- Body of the loop of `is_mapped` for the `k`-th page: whether the loop goes on. -/
def isMappedPage (directory tables : Nat → Nat) (logiAddress k : Nat) : Bool :=
  let pageAddr := u32 (pageAlignFloor logiAddress + u32 (k * PAGE_SIZE))
  let entry := directory (getPagDirIndex pageAddr)
  if isPresent entry then isPresent (tables (pageAddress entry + 4 * getPagTabIndex pageAddr))
  else false

/-- `is_mapped` -/
def isMapped (directory tables : Nat → Nat) (logiAddress size : Nat) : Bool :=
  (List.range (pageAlignCeil size / PAGE_SIZE)).all (isMappedPage directory tables logiAddress)

/-- Body of the loop of `mem_unmap` for the `k`-th page. -/
def unmapPage (directory : Nat → Nat) (logiPageAddressStart k : Nat) : List Store :=
  let logiPageAddressCurr := u32 (logiPageAddressStart + u32 (k * PAGE_SIZE))
  let pPageTable := pageAddress (directory (getPagDirIndex logiPageAddressCurr))
  if pPageTable ≠ 0 then [{ addr := pPageTable + 4 * getPagTabIndex logiPageAddressCurr, value := 0 }]
  else []

/-- `mem_unmap` -/
def memUnmap (directory : Nat → Nat) (logiAddress memsize : Nat) : List Store :=
  (List.range (pageAlignCeil memsize / PAGE_SIZE)).flatMap
    (unmapPage directory (pageAlignFloor logiAddress))

/-! ## Stores -/

theorem applyStores_cons (tables : Nat → Nat) (s : Store) (stores : List Store) :
    applyStores tables (s :: stores) = applyStores (Function.update tables s.addr s.value) stores := rfl

/-- A word that no store addresses stays. -/
theorem applyStores_of_not_mem {tables : Nat → Nat} {stores : List Store} {a : Nat}
    (h : a ∉ stores.map Store.addr) : applyStores tables stores a = tables a := by
  induction stores generalizing tables with
  | nil => rfl
  | cons s stores ih =>
    rw [List.map_cons, List.mem_cons, not_or] at h
    rw [applyStores_cons, ih h.2, Function.update_of_ne h.1]

/-- A word that one store addresses gets its value. -/
theorem applyStores_of_mem {tables : Nat → Nat} {stores : List Store} {s : Store}
    (hnodup : (stores.map Store.addr).Nodup) (hs : s ∈ stores) :
    applyStores tables stores s.addr = s.value := by
  induction stores generalizing tables with
  | nil => cases hs
  | cons s' stores ih =>
    obtain ⟨hnew, hrest⟩ := List.nodup_cons.mp hnodup
    rw [applyStores_cons]
    rcases List.mem_cons.mp hs with rfl | hs
    · rw [applyStores_of_not_mem hnew, Function.update_self]
    · exact ih hrest hs

/-! ## Entries -/

theorem pageAddress_mod (x : Nat) : pageAddress x % PAGE_SIZE = 0 := by
  have h := Nat.and_mod_two_pow (a := 0xfffff000) (b := x) (n := 12)
  exact h.trans (Nat.zero_and _)

/-- `PAGE_ADDRESS` of a 32-bit word. -/
theorem pageAddress_eq {x : Nat} (h : x < 2 ^ 32) : pageAddress x = pageAlignFloor x := by
  have hmask (i : Nat) : Nat.testBit 0xfffff000 i = (decide (12 ≤ i) && decide (i - 12 < 20)) := by
    rw [show 0xfffff000 = (2 ^ 20 - 1) <<< 12 from rfl, Nat.testBit_shiftLeft,
      Nat.testBit_two_pow_sub_one]
  have hfloor : pageAlignFloor x = (x >>> 12) <<< 12 := by
    rw [Nat.shiftRight_eq_div_pow, Nat.shiftLeft_eq]
    rfl
  apply Nat.eq_of_testBit_eq
  intro i
  rw [pageAddress, hfloor, Nat.testBit_and, hmask, Nat.testBit_shiftLeft, Nat.testBit_shiftRight]
  rcases Nat.lt_or_ge i 12 with hlt | hge
  · simp [Nat.not_le.mpr hlt]
  · rw [Nat.add_sub_cancel' hge]
    rcases Nat.lt_or_ge i 32 with hi | hi
    · simp [hge, show i - 12 < 20 by omega]
    · rw [Nat.testBit_lt_two_pow (Nat.lt_of_lt_of_le h (Nat.pow_le_pow_right (by decide) hi))]
      simp

theorem mapFlags_lt (isWritable isCacheble : Bool) : mapFlags isWritable isCacheble < PAGE_SIZE := by
  cases isWritable <;> cases isCacheble <;> decide

theorem mapFlags_mod_two (isWritable isCacheble : Bool) : mapFlags isWritable isCacheble % 2 = 1 := by
  cases isWritable <;> cases isCacheble <;> decide

/-- An entry made of a frame and flags gives them back. -/
theorem entry_frame {frame flags : Nat} (hframe : frame % PAGE_SIZE = 0) (hlt : frame < 2 ^ 32)
    (hflags : flags < PAGE_SIZE) : pageAddress (frame ||| flags) = frame := by
  have hzero : pageAddress flags = 0 := by
    rw [pageAddress_eq (Nat.lt_of_lt_of_le hflags (by decide)), pageAlignFloor,
      Nat.div_eq_of_lt hflags, Nat.zero_mul]
  have hsame : pageAddress frame = frame := by
    rw [pageAddress_eq hlt, pageAlignFloor]
    exact Nat.div_mul_cancel (Nat.dvd_of_mod_eq_zero hframe)
  unfold pageAddress at *
  rw [Nat.and_or_distrib_left, hsame, hzero, Nat.or_zero]

theorem entry_flags {frame flags : Nat} (hframe : frame % PAGE_SIZE = 0)
    (hflags : flags < PAGE_SIZE) : (frame ||| flags) % PAGE_SIZE = flags := by
  have h := Nat.or_mod_two_pow (a := frame) (b := flags) (n := 12)
  have hframe' : frame % 2 ^ 12 = 0 := hframe
  rw [hframe', Nat.zero_or] at h
  exact h.trans (Nat.mod_eq_of_lt hflags)

theorem isPresent_iff (entry : Nat) : isPresent entry = true ↔ entry % 2 = 1 := by
  rw [isPresent, beq_iff_eq, PAG_IS_PRESENT, Nat.and_one_is_mod]

theorem isPresent_zero : isPresent 0 = false := rfl

/-- What `mem_map` writes is present. -/
theorem isPresent_entry {frame : Nat} (hframe : frame % PAGE_SIZE = 0) (isWritable isCacheble : Bool) :
    isPresent (frame ||| mapFlags isWritable isCacheble) = true := by
  have hmod : (frame ||| mapFlags isWritable isCacheble) % PAGE_SIZE % 2 = 1 := by
    rw [entry_flags hframe (mapFlags_lt _ _), mapFlags_mod_two]
  rw [isPresent_iff, ← hmod]
  exact (Nat.mod_mod_of_dvd _ (show 2 ∣ PAGE_SIZE by decide)).symm

/-! ## Page tables of their own -/

/-- Present directory entries lead to page tables at addresses other than 0, each to its own. -/
structure OwnTables (directory : Nat → Nat) : Prop where
  nonzero : ∀ i < PAGE_DIR_LEN, isPresent (directory i) = true → pageAddress (directory i) ≠ 0
  distinct : ∀ i < PAGE_DIR_LEN, ∀ j < PAGE_DIR_LEN, isPresent (directory i) = true →
    isPresent (directory j) = true → pageAddress (directory i) = pageAddress (directory j) → i = j

/-- The pages of the address space whose directory entry is present. -/
def HasTable (directory : Nat → Nat) (page : Nat) : Prop :=
  page < PAGE_DIR_LEN * PAGE_TAB_ENTRIES ∧ isPresent (directory (page / PAGE_TAB_ENTRIES)) = true

variable {directory tables : Nat → Nat} {logiAddress memsize : Nat}

theorem HasTable.index_lt {page : Nat} (h : HasTable directory page) :
    page / PAGE_TAB_ENTRIES < PAGE_DIR_LEN := Nat.div_lt_of_lt_mul (Nat.mul_comm _ _ ▸ h.1)

/-- Different pages have different entries. -/
theorem OwnTables.entryAddress_inj (hown : OwnTables directory) {page page' : Nat}
    (h : HasTable directory page) (h' : HasTable directory page')
    (heq : entryAddress directory page = entryAddress directory page') : page = page' := by
  have hmod := pageAddress_mod (directory (page / PAGE_TAB_ENTRIES))
  have hmod' := pageAddress_mod (directory (page' / PAGE_TAB_ENTRIES))
  simp only [entryAddress] at heq
  have hoff : page % PAGE_TAB_ENTRIES = page' % PAGE_TAB_ENTRIES := by
    simp only [PAGE_SIZE, PAGE_TAB_ENTRIES] at *
    omega
  have htable : pageAddress (directory (page / PAGE_TAB_ENTRIES)) =
      pageAddress (directory (page' / PAGE_TAB_ENTRIES)) := by
    rw [hoff] at heq
    exact Nat.add_right_cancel heq
  have hindex := hown.distinct _ h.index_lt _ h'.index_lt h.2 h'.2 htable
  rw [← Nat.div_add_mod page PAGE_TAB_ENTRIES, ← Nat.div_add_mod page' PAGE_TAB_ENTRIES, hindex, hoff]

/-! ## A range of whole pages -/

/-- A page-aligned range that does not wrap, with all its page tables. -/
structure MappableRange (directory : Nat → Nat) (logiAddress memsize : Nat) : Prop where
  aligned : logiAddress % PAGE_SIZE = 0
  nonempty : 1 ≤ memsize
  size_le : memsize ≤ 0xFFFFF000
  fits : logiAddress + memsize ≤ 2 ^ 32
  present : TablesPresent directory logiAddress memsize

namespace MappableRange

variable (hr : MappableRange directory logiAddress memsize)
include hr

theorem pagesNum_eq : pageAlignCeil memsize / PAGE_SIZE = pageCount logiAddress memsize := by
  have hsize := hr.nonempty
  have hle := hr.size_le
  rw [TalOS.pagesNum_eq hsize (by simp only [PAGE_SIZE]; omega), pageCount_eq hsize, hr.aligned,
    Nat.zero_add]

theorem page_lt {page : Nat} (h : page ∈ pagesOf logiAddress memsize) :
    page * PAGE_SIZE < 2 ^ 32 := by
  have hlast := ((mem_pagesOf hr.nonempty).mp h).2
  have hfits := hr.fits
  have hsize := hr.nonempty
  simp only [PAGE_SIZE] at *
  omega

theorem hasTable {page : Nat} (h : page ∈ pagesOf logiAddress memsize) : HasTable directory page := by
  refine ⟨?_, hr.present page h⟩
  have hlt := hr.page_lt h
  simp only [PAGE_SIZE, PAGE_DIR_LEN, PAGE_TAB_ENTRIES] at *
  omega

omit hr in
theorem mem_pagesOf_add {k : Nat} (hk : k < pageCount logiAddress memsize) :
    firstPage logiAddress + k ∈ pagesOf logiAddress memsize :=
  List.mem_range'_1.mpr ⟨Nat.le_add_right _ _, Nat.add_lt_add_left hk _⟩

/-- What the `k`-th turn of each loop computes from its page. -/
theorem curr_eq {k : Nat} (hk : k < pageCount logiAddress memsize) :
    u32 (pageAlignFloor logiAddress + u32 (k * PAGE_SIZE)) =
      (firstPage logiAddress + k) * PAGE_SIZE :=
  logiPageAddressCurr_eq (hr.page_lt (mem_pagesOf_add hk))

theorem nodup_entries (hown : OwnTables directory) :
    ((pagesOf logiAddress memsize).map (entryAddress directory)).Nodup := by
  refine List.Nodup.map_on ?_ List.nodup_range'
  intro page hpage page' hpage' heq
  exact hown.entryAddress_inj (hr.hasTable hpage) (hr.hasTable hpage') heq

theorem stores_map (phyAddress flags : Nat) :
    ((List.range (pageCount logiAddress memsize)).map
        (mapPage directory phyAddress (pageAlignFloor logiAddress) flags)).map Store.addr =
      (pagesOf logiAddress memsize).map (entryAddress directory) :=
  stores_addr phyAddress flags hr.nonempty hr.fits (Nat.le_refl _)

/-- `mem_map` passes its check and writes the entries of the range. -/
theorem memMap_stores (phyAddress : Nat) (isWritable isCacheble : Bool) (mappedSize : Option Nat) :
    (memMap directory phyAddress logiAddress memsize isWritable isCacheble mappedSize).stores =
      (List.range (pageCount logiAddress memsize)).map
        (mapPage directory phyAddress (pageAlignFloor logiAddress) (mapFlags isWritable isCacheble)) := by
  rcases memMap_cases directory phyAddress logiAddress memsize isWritable isCacheble mappedSize with
    ⟨⟨i, hi, habsent⟩, -⟩ | ⟨-, hmap⟩
  · exact absurd (hr.present.check hr.nonempty hr.fits hi) (by simp [habsent])
  · rw [hmap, hr.pagesNum_eq]

/-- `mem_unmap` clears the entries of the range. -/
theorem memUnmap_eq (hown : OwnTables directory) :
    memUnmap directory logiAddress memsize =
      (pagesOf logiAddress memsize).map fun page => ⟨entryAddress directory page, 0⟩ := by
  have hpage (k : Nat) (hk : k < pageCount logiAddress memsize) :
      unmapPage directory (pageAlignFloor logiAddress) k =
        [⟨entryAddress directory (firstPage logiAddress + k), 0⟩] := by
    have htable := hr.hasTable (mem_pagesOf_add hk)
    simp only [unmapPage, hr.curr_eq hk, entryAddress_eq]
    rw [getPagDirIndex_page, if_pos (hown.nonzero _ htable.index_lt htable.2)]
  rw [memUnmap, hr.pagesNum_eq, pagesOf, List.range'_eq_map_range, List.map_map,
    ← List.flatMap_pure_eq_map]
  exact List.flatMap_congr fun k hk => hpage k (List.mem_range.mp hk)

/-- `is_mapped` looks at the entry of every page of the range. -/
theorem isMapped_iff (tables : Nat → Nat) :
    isMapped directory tables logiAddress memsize = true ↔
      ∀ page ∈ pagesOf logiAddress memsize, isPresent (tables (entryAddress directory page)) = true := by
  have hpage (k : Nat) (hk : k < pageCount logiAddress memsize) :
      isMappedPage directory tables logiAddress k =
        isPresent (tables (entryAddress directory (firstPage logiAddress + k))) := by
    have htable := hr.hasTable (mem_pagesOf_add hk)
    simp only [isMappedPage, hr.curr_eq hk, entryAddress_eq]
    rw [getPagDirIndex_page, if_pos htable.2]
  rw [isMapped, hr.pagesNum_eq, List.all_eq_true]
  constructor
  · intro h page hmem
    obtain ⟨hge, hlt⟩ := List.mem_range'_1.mp hmem
    obtain ⟨k, rfl⟩ := Nat.exists_eq_add_of_le hge
    have hk : k < pageCount logiAddress memsize := Nat.lt_of_add_lt_add_left hlt
    rw [← hpage k hk]
    exact h k (List.mem_range.mpr hk)
  · intro h k hk
    have hk' : k < pageCount logiAddress memsize := List.mem_range.mp hk
    rw [hpage k hk']
    exact h _ (mem_pagesOf_add hk')

/-! ### The memory after `mem_map` and after `mem_unmap` -/

/-- The frame that the range maps a page to, if its pages have entries of their own. -/
theorem mapped_entry (hnodup : ((pagesOf logiAddress memsize).map (entryAddress directory)).Nodup)
    (tables : Nat → Nat) {phyAddress page : Nat} (hphy : phyAddress % PAGE_SIZE = 0)
    (isWritable isCacheble : Bool) (mappedSize : Option Nat)
    (hpage : page ∈ pagesOf logiAddress memsize) :
    applyStores tables (memMap directory phyAddress logiAddress memsize isWritable isCacheble
        mappedSize).stores (entryAddress directory page) =
      u32 (phyAddress + (page - firstPage logiAddress) * PAGE_SIZE) |||
        mapFlags isWritable isCacheble := by
  obtain ⟨hge, hlt⟩ := List.mem_range'_1.mp hpage
  obtain ⟨k, rfl⟩ := Nat.exists_eq_add_of_le hge
  have hk : k < pageCount logiAddress memsize := Nat.lt_of_add_lt_add_left hlt
  have hstore := hr.memMap_stores phyAddress isWritable isCacheble mappedSize
  have hmem : mapPage directory phyAddress (pageAlignFloor logiAddress)
      (mapFlags isWritable isCacheble) k ∈ (memMap directory phyAddress logiAddress memsize isWritable
        isCacheble mappedSize).stores := by
    rw [hstore]
    exact List.mem_map_of_mem (List.mem_range.mpr hk)
  have hstores : ((memMap directory phyAddress logiAddress memsize isWritable isCacheble
      mappedSize).stores.map Store.addr).Nodup := by
    rw [hstore, hr.stores_map]
    exact hnodup
  have hvalue : applyStores tables _ _ = _ := applyStores_of_mem hstores hmem
  rw [mapPage_addr _ _ (hr.page_lt hpage)] at hvalue
  rw [hvalue, Nat.add_sub_cancel_left]
  have hfloor : pageAlignFloor phyAddress = phyAddress :=
    Nat.div_mul_cancel (Nat.dvd_of_mod_eq_zero hphy)
  simp only [mapPage, hfloor, u32, Nat.add_mod_mod]

theorem mapped_frame (tables : Nat → Nat) (phyAddress : Nat) (isWritable isCacheble : Bool)
    (mappedSize : Option Nat) {a : Nat}
    (ha : ∀ page ∈ pagesOf logiAddress memsize, a ≠ entryAddress directory page) :
    applyStores tables (memMap directory phyAddress logiAddress memsize isWritable isCacheble
      mappedSize).stores a = tables a := by
  apply applyStores_of_not_mem
  rw [hr.memMap_stores, hr.stores_map, List.mem_map]
  rintro ⟨page, hpage, rfl⟩
  exact ha page hpage rfl

theorem unmapped_entry (hown : OwnTables directory) (tables : Nat → Nat) {page : Nat}
    (hpage : page ∈ pagesOf logiAddress memsize) :
    applyStores tables (memUnmap directory logiAddress memsize) (entryAddress directory page) = 0 := by
  rw [hr.memUnmap_eq hown]
  refine applyStores_of_mem (s := ⟨entryAddress directory page, 0⟩) ?_ (List.mem_map_of_mem hpage)
  rw [List.map_map]
  exact hr.nodup_entries hown

theorem unmapped_frame (hown : OwnTables directory) (tables : Nat → Nat) {a : Nat}
    (ha : ∀ page ∈ pagesOf logiAddress memsize, a ≠ entryAddress directory page) :
    applyStores tables (memUnmap directory logiAddress memsize) a = tables a := by
  apply applyStores_of_not_mem
  rw [hr.memUnmap_eq hown, List.map_map, List.mem_map]
  rintro ⟨page, hpage, rfl⟩
  exact ha page hpage rfl

end MappableRange

/-- A page whose entry is absent makes `is_mapped` false for every range that starts with it. -/
theorem isMapped_of_absent {page size : Nat} (hsize : 1 ≤ size) (hle : size ≤ 0xFFFFF000)
    (hpage : page * PAGE_SIZE < 2 ^ 32)
    (habsent : isPresent (tables (entryAddress directory page)) = false) :
    isMapped directory tables (page * PAGE_SIZE) size = false := by
  have hfirst : firstPage (page * PAGE_SIZE) = page := Nat.mul_div_cancel _ (by decide)
  have hcurr : u32 (pageAlignFloor (page * PAGE_SIZE) + u32 (0 * PAGE_SIZE)) = page * PAGE_SIZE := by
    have h : u32 (pageAlignFloor (page * PAGE_SIZE) + u32 (0 * PAGE_SIZE)) =
        (firstPage (page * PAGE_SIZE) + 0) * PAGE_SIZE :=
      logiPageAddressCurr_eq (hfirst.symm ▸ hpage)
    rwa [hfirst] at h
  have hzero : isMappedPage directory tables (page * PAGE_SIZE) 0 = false := by
    simp only [isMappedPage, hcurr, entryAddress_eq, habsent, ite_self]
  rw [isMapped, pagesNum_eq hsize (by simp only [PAGE_SIZE]; omega), List.range_succ_eq_map,
    List.all_cons, hzero, Bool.false_and]

/-- Map, query and unmap agree: after `mem_map` the range is mapped, each page to its frame with the
flags, and nothing else has changed; after `mem_unmap` no page of it is, and entries that were 0
before are as they were. -/
theorem memMap_isMapped_memUnmap (directory tables : Nat → Nat) (phyAddress logiAddress memsize : Nat)
    (isWritable isCacheble : Bool) (mappedSize : Option Nat) (hown : OwnTables directory)
    (hr : MappableRange directory logiAddress memsize) (hphy : phyAddress % PAGE_SIZE = 0) :
    let mapped := applyStores tables
      (memMap directory phyAddress logiAddress memsize isWritable isCacheble mappedSize).stores
    let unmapped := applyStores mapped (memUnmap directory logiAddress memsize)
    isMapped directory mapped logiAddress memsize = true ∧
      (∀ page ∈ pagesOf logiAddress memsize,
        pageAddress (mapped (entryAddress directory page)) =
            u32 (phyAddress + (page - firstPage logiAddress) * PAGE_SIZE) ∧
          mapped (entryAddress directory page) % PAGE_SIZE = mapFlags isWritable isCacheble) ∧
      (∀ page, HasTable directory page → page ∉ pagesOf logiAddress memsize →
        mapped (entryAddress directory page) = tables (entryAddress directory page)) ∧
      (∀ page ∈ pagesOf logiAddress memsize, ∀ size, 1 ≤ size → size ≤ 0xFFFFF000 →
        isMapped directory unmapped (page * PAGE_SIZE) size = false) ∧
      ((∀ page ∈ pagesOf logiAddress memsize, tables (entryAddress directory page) = 0) →
        unmapped = tables) := by
  intro mapped unmapped
  have hframe (page : Nat) : u32 (phyAddress + (page - firstPage logiAddress) * PAGE_SIZE) % PAGE_SIZE = 0 := by
    simp only [u32, PAGE_SIZE] at *
    omega
  have hentry : ∀ page ∈ pagesOf logiAddress memsize, mapped (entryAddress directory page) =
      u32 (phyAddress + (page - firstPage logiAddress) * PAGE_SIZE) ||| mapFlags isWritable isCacheble :=
    fun page hpage =>
      hr.mapped_entry (hr.nodup_entries hown) tables hphy isWritable isCacheble mappedSize hpage
  have hother : ∀ a, (∀ page ∈ pagesOf logiAddress memsize, a ≠ entryAddress directory page) →
      mapped a = tables a :=
    fun a ha => hr.mapped_frame tables phyAddress isWritable isCacheble mappedSize ha
  refine ⟨?_, ?_, ?_, ?_, ?_⟩
  -- After `mem_map`.
  · rw [hr.isMapped_iff]
    intro page hpage
    rw [hentry page hpage]
    exact isPresent_entry (hframe page) isWritable isCacheble
  · intro page hpage
    rw [hentry page hpage]
    exact ⟨entry_frame (hframe page) (u32_lt _) (mapFlags_lt _ _),
      entry_flags (hframe page) (mapFlags_lt _ _)⟩
  · intro page hpage hout
    refine hother _ fun page' hpage' heq => hout ?_
    rw [hown.entryAddress_inj hpage (hr.hasTable hpage') heq]
    exact hpage'
  -- After `mem_unmap`.
  · intro page hpage size hsize hle
    refine isMapped_of_absent hsize hle (hr.page_lt hpage) ?_
    rw [show unmapped (entryAddress directory page) = 0 from hr.unmapped_entry hown mapped hpage]
    exact isPresent_zero
  · intro hzero
    funext a
    by_cases ha : ∃ page ∈ pagesOf logiAddress memsize, a = entryAddress directory page
    · obtain ⟨page, hpage, rfl⟩ := ha
      rw [hzero page hpage]
      exact hr.unmapped_entry hown mapped hpage
    · have hne : ∀ page ∈ pagesOf logiAddress memsize, a ≠ entryAddress directory page :=
        fun page hpage heq => ha ⟨page, hpage, heq⟩
      exact (hr.unmapped_frame hown mapped hne).trans (hother a hne)

/-- Two pages on both sides of a page-table boundary, and back. -/
theorem memMap_isMapped_memUnmap_two_tables :
    let directory : Nat → Nat := fun i => (i + 1) * PAGE_SIZE + 1
    let mapped := applyStores (fun _ => 0) (memMap directory 0x80000000 0x3FF000 0x2000 true true none).stores
    isMapped directory mapped 0x3FF000 0x2000 = true ∧
      applyStores mapped (memUnmap directory 0x3FF000 0x2000) = fun _ => 0 := by
  intro directory mapped
  have haddress : ∀ i < PAGE_DIR_LEN, pageAddress (directory i) = (i + 1) * PAGE_SIZE := by
    intro i hi
    simp only [PAGE_DIR_LEN] at hi
    have hlt : directory i < 2 ^ 32 := by
      simp only [directory, PAGE_SIZE]
      omega
    rw [pageAddress_eq hlt]
    simp only [directory, pageAlignFloor, PAGE_SIZE]
    omega
  have hown : OwnTables directory := by
    constructor
    · intro i hi _
      rw [haddress i hi]
      simp [PAGE_SIZE]
    · intro i hi j hj _ _ heq
      rw [haddress i hi, haddress j hj] at heq
      exact Nat.succ.inj (Nat.eq_of_mul_eq_mul_right (by decide) heq)
  have hpresent : TablesPresent directory 0x3FF000 0x2000 := by
    intro page _
    rw [isPresent_iff]
    simp only [directory, PAGE_SIZE]
    omega
  have h := memMap_isMapped_memUnmap directory (fun _ => 0) 0x80000000 0x3FF000 0x2000 true true none
    hown ⟨by decide, by decide, by decide, by decide, hpresent⟩ (by decide)
  exact ⟨h.1, h.2.2.2.2 fun _ _ => rfl⟩

end TalOS
