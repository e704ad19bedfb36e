-- SUMMARY: The tables that `InitPaging` sets up, over whatever was in them before.
import TalOS.Arch.PageMapping

/-!
# Setting up paging

The page directory and the two arrays of page tables are words in one memory, at
the addresses the linker gives them. `InitPaging` is the list of its stores: three
loops that clear, three areas of the kernel, two loops over the directory.
-/

open MachineInt

namespace TalOS

def PAGE_TAB_LEN : Nat := 1024

def KER_MEM_START_ADDR : Nat := 0
def KER_MEM_MAX_SIZE : Nat := 0x40000000
def KER_PAGES_NUM : Nat := KER_MEM_MAX_SIZE / PAGE_SIZE
def KER_TABS : Nat := KER_PAGES_NUM / PAGE_TAB_ENTRIES

def KER_MMAP_IO_ADDR_START : Nat := pageAlignFloor 0xFE000000
def KER_MMAP_IO_ADDR_END : Nat := pageAlignFloor 0xFFFFFFFF
def KER_MMAP_IO_N_PAGES : Nat :=
  pageAlignFloor (KER_MMAP_IO_ADDR_END - KER_MMAP_IO_ADDR_START) / PAGE_SIZE

/-- `sizeof(uint32_t)` -/
def SIZEOF_UINT32 : Nat := 4

/-! ## The code -/

/-- What the linker script and the linker decide: the addresses of the three
arrays and the areas of the kernel. -/
structure KernelLayout where
  pageDirectory : Nat
  kernelPageTables : Nat
  mmapIoPageTables : Nat
  kerRoAreaStart : Nat
  kerRoAreaSize : Nat
  kerRoAreaEnd : Nat
  kerDataSize : Nat
deriving Repr, DecidableEq

/-- A loop over the first `n` words of an array. -/
def wordStores (array n : Nat) (value : Nat → Nat) : List Store :=
  (List.range n).map fun i => ⟨array + SIZEOF_UINT32 * i, value i⟩

/-- The loop of `page_mapping`; it ends where `areaSize` becomes 0. -/
def pageMappingLoop (flags : Nat) : Nat → Nat → Nat → Nat → Option (List Store)
  | 0, _, _, _ => none
  | fuel + 1, pPageTable, phyAddrStart, areaSize =>
    if areaSize > 0 then
      (pageMappingLoop flags fuel (u32 (pPageTable + SIZEOF_UINT32)) (u32 (phyAddrStart + PAGE_SIZE))
        (sub32 areaSize PAGE_SIZE)).map (⟨pPageTable, phyAddrStart ||| flags⟩ :: ·)
    else some []

/-- `page_mapping`. An area of whole pages takes at most 2^20 turns; any other
never comes to an end. -/
def pageMapping (pPageTable phyAddrStart areaSize flags : Nat) : Option (List Store) :=
  pageMappingLoop flags (2 ^ 20 + 1) pPageTable (pageAddress phyAddrStart) areaSize

/-- What `InitPaging` leaves behind. -/
structure InitResult where
  memory : Nat → Nat
  kernelFirstFreeVirPage : Nat

/-- `InitPaging`, without switching paging on. -/
def initPaging (k : KernelLayout) (memory : Nat → Nat) : Option InitResult := do
  let cleared :=
    wordStores k.pageDirectory (PAGE_DIR_LEN / SIZEOF_UINT32) (fun _ => 0) ++
      wordStores k.kernelPageTables (KER_PAGES_NUM / SIZEOF_UINT32) (fun _ => 0) ++
      wordStores k.mmapIoPageTables (KER_MMAP_IO_N_PAGES / SIZEOF_UINT32) (fun _ => 0)
  let low ← pageMapping k.kernelPageTables KER_MEM_START_ADDR k.kerRoAreaStart
    (PAG_IS_PRESENT ||| PAG_IS_RW)
  let readOnly ← pageMapping (k.kernelPageTables + SIZEOF_UINT32 * (k.kerRoAreaStart / PAGE_SIZE))
    k.kerRoAreaStart (pageAlignFloor k.kerRoAreaSize) PAG_IS_PRESENT
  let data ← pageMapping (k.kernelPageTables + SIZEOF_UINT32 * (k.kerRoAreaEnd / PAGE_SIZE))
    k.kerRoAreaEnd (pageAlignFloor k.kerDataSize) (PAG_IS_PRESENT ||| PAG_IS_RW)
  let kernelDirectory := wordStores k.pageDirectory KER_TABS fun i =>
    k.kernelPageTables + SIZEOF_UINT32 * (i * PAGE_TAB_LEN) ||| PAG_IS_PRESENT ||| PAG_IS_RW
  let mmapDirectory := wordStores
    (k.pageDirectory + SIZEOF_UINT32 * getPagDirIndex KER_MMAP_IO_ADDR_START)
    (KER_MMAP_IO_N_PAGES / PAGE_TAB_ENTRIES) fun i =>
      k.mmapIoPageTables + SIZEOF_UINT32 * (i * PAGE_TAB_LEN) ||| PAG_IS_PRESENT ||| PAG_IS_RW
  some
    { memory := applyStores memory
        (cleared ++ low ++ readOnly ++ data ++ kernelDirectory ++ mmapDirectory)
      kernelFirstFreeVirPage :=
        k.kerRoAreaEnd / PAGE_SIZE + pageAlignFloor k.kerDataSize / PAGE_SIZE }

/-! ## What the MMU sees -/

def isWritable (entry : Nat) : Bool := entry &&& PAG_IS_RW == PAG_IS_RW

/-- Where a page leads and whether it may be written. -/
structure PageMapping where
  frame : Nat
  writable : Bool
deriving Repr, DecidableEq

/-- The MMU's walk for a page. -/
def lookupPage (memory : Nat → Nat) (pageDirectory page : Nat) : Option PageMapping :=
  let entry := memory (pageDirectory + SIZEOF_UINT32 * (page / PAGE_TAB_ENTRIES))
  if isPresent entry then
    let pageEntry := memory (pageAddress entry + SIZEOF_UINT32 * (page % PAGE_TAB_ENTRIES))
    if isPresent pageEntry then
      some ⟨pageAddress pageEntry, isWritable entry && isWritable pageEntry⟩
    else none
  else none

/-- The page-aligned layouts inside the first GiB, with three arrays that do not overlap. -/
structure KernelLayout.Valid (k : KernelLayout) : Prop where
  directoryAligned : k.pageDirectory % PAGE_SIZE = 0
  tablesAligned : k.kernelPageTables % PAGE_SIZE = 0
  mmapAligned : k.mmapIoPageTables % PAGE_SIZE = 0
  directoryFits : k.pageDirectory + SIZEOF_UINT32 * PAGE_DIR_LEN < 2 ^ 32
  tablesFit : k.kernelPageTables + SIZEOF_UINT32 * KER_PAGES_NUM < 2 ^ 32
  mmapFits : k.mmapIoPageTables + SIZEOF_UINT32 * KER_MMAP_IO_N_PAGES < 2 ^ 32
  directoryTables : k.pageDirectory + SIZEOF_UINT32 * PAGE_DIR_LEN ≤ k.kernelPageTables ∨
    k.kernelPageTables + SIZEOF_UINT32 * KER_PAGES_NUM ≤ k.pageDirectory
  directoryMmap : k.pageDirectory + SIZEOF_UINT32 * PAGE_DIR_LEN ≤ k.mmapIoPageTables ∨
    k.mmapIoPageTables + SIZEOF_UINT32 * KER_MMAP_IO_N_PAGES ≤ k.pageDirectory
  tablesMmap : k.kernelPageTables + SIZEOF_UINT32 * KER_PAGES_NUM ≤ k.mmapIoPageTables ∨
    k.mmapIoPageTables + SIZEOF_UINT32 * KER_MMAP_IO_N_PAGES ≤ k.kernelPageTables
  startAligned : k.kerRoAreaStart % PAGE_SIZE = 0
  endAligned : k.kerRoAreaEnd % PAGE_SIZE = 0
  dataAligned : k.kerDataSize % PAGE_SIZE = 0
  roArea : k.kerRoAreaStart + k.kerRoAreaSize = k.kerRoAreaEnd
  fits : k.kerRoAreaEnd + k.kerDataSize ≤ KER_MEM_MAX_SIZE

/-- The directory entries that lead to page tables of the kernel. -/
def DirectoryWindow (i : Nat) : Prop :=
  i < KER_TABS ∨ getPagDirIndex KER_MMAP_IO_ADDR_START ≤ i ∧
    i < getPagDirIndex KER_MMAP_IO_ADDR_START + KER_MMAP_IO_N_PAGES / PAGE_TAB_ENTRIES

/-- The kernel's map. -/
structure KernelMap (k : KernelLayout) (memory : Nat → Nat) : Prop where
  low : ∀ page, page * PAGE_SIZE < k.kerRoAreaStart →
    lookupPage memory k.pageDirectory page = some ⟨page * PAGE_SIZE, true⟩
  readOnly : ∀ page, k.kerRoAreaStart ≤ page * PAGE_SIZE → page * PAGE_SIZE < k.kerRoAreaEnd →
    lookupPage memory k.pageDirectory page = some ⟨page * PAGE_SIZE, false⟩
  data : ∀ page, k.kerRoAreaEnd ≤ page * PAGE_SIZE →
    page * PAGE_SIZE < k.kerRoAreaEnd + k.kerDataSize →
    lookupPage memory k.pageDirectory page = some ⟨page * PAGE_SIZE, true⟩
  rest : ∀ page, k.kerRoAreaEnd + k.kerDataSize ≤ page * PAGE_SIZE →
    page * PAGE_SIZE < KER_MEM_MAX_SIZE → lookupPage memory k.pageDirectory page = none
  window : ∀ page, KER_MMAP_IO_ADDR_START ≤ page * PAGE_SIZE →
    page * PAGE_SIZE < KER_MMAP_IO_ADDR_END → lookupPage memory k.pageDirectory page = none
  directory : ∀ i < PAGE_DIR_LEN, ¬ DirectoryWindow i →
    isPresent (memory (k.pageDirectory + SIZEOF_UINT32 * i)) = false

/-! ## Stores into arrays -/

theorem applyStores_append (memory : Nat → Nat) (l l' : List Store) :
    applyStores memory (l ++ l') = applyStores (applyStores memory l) l' := List.foldl_append

/-- The words of the array. -/
theorem applyStores_wordStores (memory : Nat → Nat) (array : Nat) (value : Nat → Nat) {n i : Nat}
    (hi : i < n) :
    applyStores memory (wordStores array n value) (array + SIZEOF_UINT32 * i) = value i := by
  have hnodup : ((wordStores array n value).map Store.addr).Nodup := by
    rw [wordStores, List.map_map]
    refine List.Nodup.map_on ?_ List.nodup_range
    intro i _ j _ heq
    exact Nat.eq_of_mul_eq_mul_left (by decide : 0 < SIZEOF_UINT32) (Nat.add_left_cancel heq)
  exact applyStores_of_mem (s := ⟨array + SIZEOF_UINT32 * i, value i⟩) hnodup
    (List.mem_map_of_mem (List.mem_range.mpr hi))

/-- A word before or behind them. -/
theorem applyStores_wordStores_of_out (memory : Nat → Nat) {array n a : Nat} (value : Nat → Nat)
    (h : a < array ∨ array + SIZEOF_UINT32 * n ≤ a) :
    applyStores memory (wordStores array n value) a = memory a := by
  refine applyStores_of_not_mem fun hmem => ?_
  rw [wordStores, List.map_map, List.mem_map] at hmem
  obtain ⟨i, hi, rfl⟩ := hmem
  have hlt : i < n := List.mem_range.mp hi
  simp only [Function.comp_apply, SIZEOF_UINT32] at h
  omega

/-- A word of the array, or behind it. -/
theorem applyStores_wordStores_word (memory : Nat → Nat) (array n i : Nat) (value : Nat → Nat) :
    applyStores memory (wordStores array n value) (array + SIZEOF_UINT32 * i) =
      if i < n then value i else memory (array + SIZEOF_UINT32 * i) := by
  split
  · next hi => exact applyStores_wordStores memory array value hi
  · next hi =>
    have hbehind : SIZEOF_UINT32 * n ≤ SIZEOF_UINT32 * i := Nat.mul_le_mul_left _ (Nat.le_of_not_lt hi)
    exact applyStores_wordStores_of_out memory value (.inr (Nat.add_le_add_left hbehind array))

/-! ## The loop of `page_mapping` -/

/-- `n` consecutive entries from `pPageTable` on, for consecutive pages from `start` on. -/
def pageEntries (pPageTable start n flags : Nat) : List Store :=
  (List.range n).map fun k =>
    ⟨u32 (pPageTable + SIZEOF_UINT32 * k), u32 (start + PAGE_SIZE * k) ||| flags⟩

theorem u32_u32_add (a b : Nat) : u32 (u32 a + b) = u32 (a + b) := Nat.mod_add_mod ..

theorem pageEntries_succ {pPageTable start : Nat} (n flags : Nat) (htable : pPageTable < 2 ^ 32)
    (hstart : start < 2 ^ 32) :
    pageEntries pPageTable start (n + 1) flags =
      ⟨pPageTable, start ||| flags⟩ ::
        pageEntries (u32 (pPageTable + SIZEOF_UINT32)) (u32 (start + PAGE_SIZE)) n flags := by
  have hnext (a b k : Nat) : u32 (u32 (a + b) + b * k) = u32 (a + b * (k + 1)) := by
    rw [u32_u32_add, Nat.add_assoc, Nat.mul_succ, Nat.add_comm b]
  rw [pageEntries, List.range_succ_eq_map, List.map_cons, List.map_map]
  simp only [Nat.mul_zero, Nat.add_zero, u32_of_lt htable, u32_of_lt hstart]
  refine congrArg _ (List.map_congr_left fun k _ => ?_)
  rw [hnext, hnext]
  rfl

theorem pageAddress_lt (addr : Nat) : pageAddress addr < 2 ^ 32 :=
  Nat.lt_of_le_of_lt Nat.and_le_left (by decide)

/-- Over whole pages the loop ends after as many turns. -/
theorem pageMappingLoop_whole (flags : Nat) {n fuel pPageTable start : Nat} (hfuel : n < fuel)
    (harea : PAGE_SIZE * n < 2 ^ 32) (htable : pPageTable < 2 ^ 32) (hstart : start < 2 ^ 32) :
    pageMappingLoop flags fuel pPageTable start (PAGE_SIZE * n) =
      some (pageEntries pPageTable start n flags) := by
  induction n generalizing fuel pPageTable start with
  | zero =>
    obtain ⟨fuel, rfl⟩ := Nat.exists_eq_add_of_le' hfuel
    rfl
  | succ n ih =>
    obtain ⟨fuel, rfl⟩ := Nat.exists_eq_add_of_le' (Nat.succ_le_of_lt (Nat.zero_lt_of_lt hfuel))
    have hpos : PAGE_SIZE * (n + 1) > 0 := Nat.mul_pos (by decide) (Nat.succ_pos n)
    have hrest : sub32 (PAGE_SIZE * (n + 1)) PAGE_SIZE = PAGE_SIZE * n := by
      rw [sub32_of_le (Nat.le_mul_of_pos_right _ (Nat.succ_pos n)) harea, Nat.mul_succ, Nat.add_sub_cancel]
    rw [Nat.mul_succ] at harea
    rw [pageMappingLoop, if_pos hpos, hrest,
      ih (Nat.lt_of_succ_lt_succ hfuel) (Nat.lt_of_add_right_lt harea) (u32_lt _) (u32_lt _),
      pageEntries_succ n flags htable hstart]
    rfl

/-- Where nothing wraps around, the entries are the words of an array. -/
theorem pageEntries_eq_wordStores {pPageTable start n : Nat} (flags : Nat)
    (htable : pPageTable + SIZEOF_UINT32 * n < 2 ^ 32) (hstart : start + PAGE_SIZE * n < 2 ^ 32) :
    pageEntries pPageTable start n flags = wordStores pPageTable n fun i => start + PAGE_SIZE * i ||| flags := by
  rw [pageEntries, wordStores]
  refine List.map_congr_left fun i hi => ?_
  have hlt : i < n := List.mem_range.mp hi
  simp only [SIZEOF_UINT32, PAGE_SIZE] at htable hstart ⊢
  rw [u32_of_lt (by omega), u32_of_lt (by omega)]

/-- `page_mapping` over `n` whole pages fills `n` words of a table. -/
theorem pageMapping_eq (flags n pPageTable first : Nat)
    (htable : pPageTable + SIZEOF_UINT32 * n < 2 ^ 32) (hphy : PAGE_SIZE * (first + n) < 2 ^ 32) :
    pageMapping pPageTable (PAGE_SIZE * first) (PAGE_SIZE * n) flags =
      some (wordStores pPageTable n fun i => PAGE_SIZE * (first + i) ||| flags) := by
  have hstart : pageAddress (PAGE_SIZE * first) = PAGE_SIZE * first := by
    rw [Nat.mul_add] at hphy
    rw [pageAddress_eq (by omega), pageAlignFloor, Nat.mul_div_cancel_left _ (by decide), Nat.mul_comm]
  have hfuel : n < 2 ^ 20 + 1 := by
    simp only [PAGE_SIZE] at hphy
    omega
  rw [Nat.mul_add] at hphy
  rw [pageMapping, hstart, pageMappingLoop_whole flags hfuel (Nat.lt_of_add_left_lt hphy)
    (Nat.lt_of_add_right_lt htable) (Nat.lt_of_add_right_lt hphy), pageEntries_eq_wordStores flags htable hphy]
  simp only [Nat.mul_add]

/-! ## The memory afterwards -/

theorem KER_PAGES_NUM_eq : KER_PAGES_NUM = 262144 := rfl
theorem KER_MMAP_IO_N_PAGES_eq : KER_MMAP_IO_N_PAGES = 8191 := rfl

namespace KernelLayout

variable (k : KernelLayout)

/-- The pages at which the areas of the kernel end. -/
def roStartPage : Nat := k.kerRoAreaStart / PAGE_SIZE
def roEndPage : Nat := k.kerRoAreaEnd / PAGE_SIZE
def dataEndPage : Nat := k.kerRoAreaEnd / PAGE_SIZE + k.kerDataSize / PAGE_SIZE

/-- What the kernel's page tables get for a page of one of the areas. -/
def areaEntry (page : Nat) : Nat :=
  PAGE_SIZE * page |||
    if page < k.roStartPage then PAG_IS_PRESENT ||| PAG_IS_RW
    else if page < k.roEndPage then PAG_IS_PRESENT
    else PAG_IS_PRESENT ||| PAG_IS_RW

/-- The three loops that clear. -/
def clearStores : List Store :=
  wordStores k.pageDirectory (PAGE_DIR_LEN / SIZEOF_UINT32) (fun _ => 0) ++
    wordStores k.kernelPageTables (KER_PAGES_NUM / SIZEOF_UINT32) (fun _ => 0) ++
    wordStores k.mmapIoPageTables (KER_MMAP_IO_N_PAGES / SIZEOF_UINT32) (fun _ => 0)

/-- The three areas, one behind the other. -/
def areaStores : List Store := wordStores k.kernelPageTables k.dataEndPage k.areaEntry

/-- The entries of the directory. -/
def directoryEntry (array i : Nat) : Nat :=
  array + SIZEOF_UINT32 * (i * PAGE_TAB_LEN) ||| PAG_IS_PRESENT ||| PAG_IS_RW

/-- The two loops over the directory. -/
def directoryStores : List Store :=
  wordStores k.pageDirectory KER_TABS (directoryEntry k.kernelPageTables) ++
    wordStores (k.pageDirectory + SIZEOF_UINT32 * getPagDirIndex KER_MMAP_IO_ADDR_START)
      (KER_MMAP_IO_N_PAGES / PAGE_TAB_ENTRIES) (directoryEntry k.mmapIoPageTables)

/-- The memory after all the stores. -/
def setUp (memory : Nat → Nat) : Nat → Nat :=
  applyStores memory (k.clearStores ++ k.areaStores ++ k.directoryStores)

end KernelLayout

/-- A loop cut in two. -/
theorem wordStores_append (array m n : Nat) (value : Nat → Nat) :
    wordStores array (m + n) value =
      wordStores array m value ++
        wordStores (array + SIZEOF_UINT32 * m) n fun i => value (m + i) := by
  rw [wordStores, wordStores, wordStores, List.range_add, List.map_append, List.map_map]
  congr 1
  refine List.map_congr_left fun i _ => ?_
  rw [Function.comp_apply, Nat.mul_add, ← Nat.add_assoc]

theorem wordStores_congr {array n : Nat} {value value' : Nat → Nat} (h : ∀ i < n, value i = value' i) :
    wordStores array n value = wordStores array n value' :=
  List.map_congr_left fun i hi => by rw [h i (List.mem_range.mp hi)]

variable {k : KernelLayout}

/-- A layout in whole pages. -/
structure KernelLayout.Paged (k : KernelLayout) : Prop where
  start_eq : k.kerRoAreaStart = PAGE_SIZE * k.roStartPage
  end_eq : k.kerRoAreaEnd = PAGE_SIZE * k.roEndPage
  ro_eq : pageAlignFloor k.kerRoAreaSize = PAGE_SIZE * (k.roEndPage - k.roStartPage)
  data_eq : pageAlignFloor k.kerDataSize = PAGE_SIZE * (k.dataEndPage - k.roEndPage)
  dataEnd_eq : k.kerRoAreaEnd + k.kerDataSize = PAGE_SIZE * k.dataEndPage
  start_le : k.roStartPage ≤ k.roEndPage
  end_le : k.roEndPage ≤ k.dataEndPage
  fits : k.dataEndPage ≤ KER_PAGES_NUM

theorem KernelLayout.Valid.paged (hv : k.Valid) : k.Paged := by
  have hwhole {n : Nat} (h : n % PAGE_SIZE = 0) : n = PAGE_SIZE * (n / PAGE_SIZE) :=
    (Nat.mul_div_cancel' (Nat.dvd_of_mod_eq_zero h)).symm
  have hstart : k.kerRoAreaStart = PAGE_SIZE * k.roStartPage := hwhole hv.startAligned
  have hend : k.kerRoAreaEnd = PAGE_SIZE * k.roEndPage := hwhole hv.endAligned
  have hdata := hwhole hv.dataAligned
  have harea := hv.roArea
  have hfits := hv.fits
  have hdataEnd : k.dataEndPage = k.roEndPage + k.kerDataSize / PAGE_SIZE := rfl
  simp only [PAGE_SIZE, KER_MEM_MAX_SIZE] at hstart hend hdata hdataEnd hfits
  refine ⟨hstart, hend, ?_, ?_, ?_, ?_, ?_, ?_⟩
  · simp only [pageAlignFloor, PAGE_SIZE]
    omega
  · simp only [pageAlignFloor, PAGE_SIZE]
    omega
  · simp only [PAGE_SIZE]
    omega
  · omega
  · omega
  · simp only [KER_PAGES_NUM_eq]
    omega

/-- The three areas are one run of the tables. -/
theorem KernelLayout.Paged.areaStores_eq (hp : k.Paged) :
    k.areaStores =
      wordStores k.kernelPageTables k.roStartPage
          (fun i => PAGE_SIZE * (0 + i) ||| (PAG_IS_PRESENT ||| PAG_IS_RW)) ++
        wordStores (k.kernelPageTables + SIZEOF_UINT32 * k.roStartPage) (k.roEndPage - k.roStartPage)
          (fun i => PAGE_SIZE * (k.roStartPage + i) ||| PAG_IS_PRESENT) ++
        wordStores (k.kernelPageTables + SIZEOF_UINT32 * k.roEndPage) (k.dataEndPage - k.roEndPage)
          (fun i => PAGE_SIZE * (k.roEndPage + i) ||| (PAG_IS_PRESENT ||| PAG_IS_RW)) := by
  have hstart := hp.start_le
  have hend := hp.end_le
  have hsplit : k.dataEndPage = k.roEndPage + (k.dataEndPage - k.roEndPage) :=
    (Nat.add_sub_cancel' hend).symm
  have hsplit' : k.roEndPage = k.roStartPage + (k.roEndPage - k.roStartPage) :=
    (Nat.add_sub_cancel' hstart).symm
  have hfirst := wordStores_append k.kernelPageTables k.roEndPage (k.dataEndPage - k.roEndPage) k.areaEntry
  have hsecond := wordStores_append k.kernelPageTables k.roStartPage (k.roEndPage - k.roStartPage)
    k.areaEntry
  rw [← hsplit] at hfirst
  rw [← hsplit'] at hsecond
  rw [KernelLayout.areaStores, hfirst, hsecond]
  congr 1
  · congr 1
    · refine wordStores_congr fun i hi => ?_
      rw [areaEntry, if_pos hi, Nat.zero_add]
    · refine wordStores_congr fun i hi => ?_
      rw [areaEntry, if_neg (by omega), if_pos (by omega)]
  · refine wordStores_congr fun i hi => ?_
    rw [areaEntry, if_neg (by omega), if_neg (by omega)]

/-- `InitPaging` comes to its end, with these stores. -/
theorem KernelLayout.Valid.initPaging_eq (hv : k.Valid) (memory : Nat → Nat) :
    initPaging k memory = some ⟨k.setUp memory, k.dataEndPage⟩ := by
  have hp := hv.paged
  have hstart := hp.start_le
  have hend := hp.end_le
  have hfits := hp.fits
  have htables := hv.tablesFit
  simp only [KER_PAGES_NUM_eq, SIZEOF_UINT32] at hfits htables
  have hlow := pageMapping_eq (PAG_IS_PRESENT ||| PAG_IS_RW) k.roStartPage k.kernelPageTables 0
    (by simp only [SIZEOF_UINT32]; omega) (by simp only [PAGE_SIZE]; omega)
  have hro := pageMapping_eq PAG_IS_PRESENT (k.roEndPage - k.roStartPage)
    (k.kernelPageTables + SIZEOF_UINT32 * k.roStartPage) k.roStartPage
    (by simp only [SIZEOF_UINT32]; omega) (by simp only [PAGE_SIZE]; omega)
  have hdata := pageMapping_eq (PAG_IS_PRESENT ||| PAG_IS_RW) (k.dataEndPage - k.roEndPage)
    (k.kernelPageTables + SIZEOF_UINT32 * k.roEndPage) k.roEndPage
    (by simp only [SIZEOF_UINT32]; omega) (by simp only [PAGE_SIZE]; omega)
  rw [← hp.start_eq] at hlow hro
  rw [← hp.end_eq, ← hp.data_eq] at hdata
  rw [← hp.ro_eq] at hro
  have hrun : initPaging k memory = some
      { memory := applyStores memory (k.clearStores ++
          wordStores k.kernelPageTables k.roStartPage
            (fun i => PAGE_SIZE * (0 + i) ||| (PAG_IS_PRESENT ||| PAG_IS_RW)) ++
          wordStores (k.kernelPageTables + SIZEOF_UINT32 * k.roStartPage) (k.roEndPage - k.roStartPage)
            (fun i => PAGE_SIZE * (k.roStartPage + i) ||| PAG_IS_PRESENT) ++
          wordStores (k.kernelPageTables + SIZEOF_UINT32 * k.roEndPage) (k.dataEndPage - k.roEndPage)
            (fun i => PAGE_SIZE * (k.roEndPage + i) ||| (PAG_IS_PRESENT ||| PAG_IS_RW)) ++
          wordStores k.pageDirectory KER_TABS (KernelLayout.directoryEntry k.kernelPageTables) ++
          wordStores (k.pageDirectory + SIZEOF_UINT32 * getPagDirIndex KER_MMAP_IO_ADDR_START)
            (KER_MMAP_IO_N_PAGES / PAGE_TAB_ENTRIES)
            (KernelLayout.directoryEntry k.mmapIoPageTables))
        kernelFirstFreeVirPage :=
          k.kerRoAreaEnd / PAGE_SIZE + pageAlignFloor k.kerDataSize / PAGE_SIZE } := by
    unfold KernelLayout.roStartPage KernelLayout.roEndPage at *
    simp only [initPaging, KER_MEM_START_ADDR, Nat.mul_zero] at hlow ⊢
    simp only [hlow, hro, hdata, Option.bind_eq_bind, Option.bind_some]
    rfl
  have hlast : pageAlignFloor k.kerDataSize / PAGE_SIZE = k.kerDataSize / PAGE_SIZE :=
    Nat.mul_div_cancel _ (by decide)
  rw [hrun, hlast, KernelLayout.setUp, hp.areaStores_eq, KernelLayout.directoryStores]
  simp only [List.append_assoc]
  rfl

/-- How much of each array is cleared: the loop bounds are lengths divided by the
size of an element. -/
theorem clearStores_eq (k : KernelLayout) :
    k.clearStores = wordStores k.pageDirectory 256 (fun _ => 0) ++
      wordStores k.kernelPageTables 65536 (fun _ => 0) ++
      wordStores k.mmapIoPageTables 2047 (fun _ => 0) := rfl

theorem directoryStores_eq (k : KernelLayout) :
    k.directoryStores = wordStores k.pageDirectory 256 (KernelLayout.directoryEntry k.kernelPageTables) ++
      wordStores (k.pageDirectory + SIZEOF_UINT32 * 1016) 7
        (KernelLayout.directoryEntry k.mmapIoPageTables) := rfl

/-- The arrays, with their lengths as numbers. -/
structure KernelLayout.Apart (k : KernelLayout) : Prop where
  directoryTables : k.pageDirectory + 4096 ≤ k.kernelPageTables ∨
    k.kernelPageTables + 1048576 ≤ k.pageDirectory
  directoryMmap : k.pageDirectory + 4096 ≤ k.mmapIoPageTables ∨
    k.mmapIoPageTables + 32764 ≤ k.pageDirectory
  tablesMmap : k.kernelPageTables + 1048576 ≤ k.mmapIoPageTables ∨
    k.mmapIoPageTables + 32764 ≤ k.kernelPageTables
  dataEnd : k.dataEndPage ≤ 262144

theorem KernelLayout.Valid.apart (hv : k.Valid) : k.Apart :=
  ⟨hv.directoryTables, hv.directoryMmap, hv.tablesMmap, hv.paged.fits⟩

section
variable (hv : k.Valid) (memory : Nat → Nat) {i : Nat}
include hv

/-- The kernel's page tables afterwards. -/
theorem KernelLayout.Valid.setUp_table (hi : i < 262144) :
    k.setUp memory (k.kernelPageTables + SIZEOF_UINT32 * i) =
      if i < k.dataEndPage then k.areaEntry i
      else if i < 65536 then 0
      else memory (k.kernelPageTables + SIZEOF_UINT32 * i) := by
  obtain ⟨hdt, hdm, htm, hend⟩ := hv.apart
  simp only [setUp, clearStores_eq, directoryStores_eq, areaStores, applyStores_append]
  -- From the last stores back to the first; those of the other two arrays are passed over.
  rw [applyStores_wordStores_of_out _ _ (by simp only [SIZEOF_UINT32]; omega),
    applyStores_wordStores_of_out _ _ (by simp only [SIZEOF_UINT32]; omega),
    applyStores_wordStores_word,
    applyStores_wordStores_of_out _ _ (by simp only [SIZEOF_UINT32]; omega),
    applyStores_wordStores_word,
    applyStores_wordStores_of_out _ _ (by simp only [SIZEOF_UINT32]; omega)]

/-- The page tables of the I/O window afterwards. -/
theorem KernelLayout.Valid.setUp_mmap (hi : i < 8191) :
    k.setUp memory (k.mmapIoPageTables + SIZEOF_UINT32 * i) =
      if i < 2047 then 0 else memory (k.mmapIoPageTables + SIZEOF_UINT32 * i) := by
  obtain ⟨hdt, hdm, htm, hend⟩ := hv.apart
  simp only [setUp, clearStores_eq, directoryStores_eq, areaStores, applyStores_append]
  rw [applyStores_wordStores_of_out _ _ (by simp only [SIZEOF_UINT32]; omega),
    applyStores_wordStores_of_out _ _ (by simp only [SIZEOF_UINT32]; omega),
    applyStores_wordStores_of_out _ _ (by simp only [SIZEOF_UINT32]; omega),
    applyStores_wordStores_word]
  split
  · rfl
  · rw [applyStores_wordStores_of_out _ _ (by simp only [SIZEOF_UINT32]; omega),
      applyStores_wordStores_of_out _ _ (by simp only [SIZEOF_UINT32]; omega)]

/-- The page directory afterwards. -/
theorem KernelLayout.Valid.setUp_directory (hi : i < 1024) :
    k.setUp memory (k.pageDirectory + SIZEOF_UINT32 * i) =
      if 1016 ≤ i ∧ i < 1023 then directoryEntry k.mmapIoPageTables (i - 1016)
      else if i < 256 then directoryEntry k.kernelPageTables i
      else memory (k.pageDirectory + SIZEOF_UINT32 * i) := by
  obtain ⟨hdt, hdm, htm, hend⟩ := hv.apart
  simp only [setUp, clearStores_eq, directoryStores_eq, areaStores, applyStores_append]
  split
  · next hwindow =>
    obtain ⟨d, rfl⟩ := Nat.exists_eq_add_of_le hwindow.1
    have hd : d < 7 := by omega
    rw [Nat.mul_add, ← Nat.add_assoc, applyStores_wordStores _ _ _ hd, Nat.add_sub_cancel_left]
  · next hwindow =>
    rw [applyStores_wordStores_of_out _ _ (by simp only [SIZEOF_UINT32]; omega)]
    rw [applyStores_wordStores_word]
    split
    · rfl
    · rw [applyStores_wordStores_of_out _ _ (by simp only [SIZEOF_UINT32]; omega),
        applyStores_wordStores_of_out _ _ (by simp only [SIZEOF_UINT32]; omega),
        applyStores_wordStores_of_out _ _ (by simp only [SIZEOF_UINT32]; omega),
        applyStores_wordStores_of_out _ _ (by simp only [SIZEOF_UINT32]; omega)]

end

/-! ## The map -/

/-- Bits below the frame come from the flags. -/
theorem entry_and {frame flags mask : Nat} (hframe : frame % PAGE_SIZE = 0) (hmask : mask < PAGE_SIZE) :
    (frame ||| flags) &&& mask = flags &&& mask := by
  have hzero : frame &&& mask = 0 := by
    have hmod := Nat.and_mod_two_pow (a := frame) (b := mask) (n := 12)
    have hframe' : frame % 2 ^ 12 = 0 := hframe
    have hlt : frame &&& mask < 2 ^ 12 := Nat.lt_of_le_of_lt Nat.and_le_right hmask
    rw [hframe', Nat.zero_and, Nat.mod_eq_of_lt hlt] at hmod
    exact hmod
  rw [Nat.and_or_distrib_right, hzero, Nat.zero_or]

theorem isPresent_or {frame : Nat} (flags : Nat) (hframe : frame % PAGE_SIZE = 0) :
    isPresent (frame ||| flags) = isPresent flags := by
  rw [isPresent, isPresent, entry_and hframe (by decide)]

theorem isWritable_or {frame : Nat} (flags : Nat) (hframe : frame % PAGE_SIZE = 0) :
    isWritable (frame ||| flags) = isWritable flags := by
  rw [isWritable, isWritable, entry_and hframe (by decide)]

/-- What an entry of a page table says. -/
def entryMapping (entry : Nat) : Option PageMapping :=
  if isPresent entry then some ⟨pageAddress entry, isWritable entry⟩ else none

theorem entryMapping_eq_none {entry : Nat} : entryMapping entry = none ↔ isPresent entry = false := by
  unfold entryMapping
  split
  · next h => simp [h]
  · next h => simpa using h

/-- Through a directory entry of the kernel the page table decides. -/
theorem lookupPage_of_table {memory : Nat → Nat} {pageDirectory page array d : Nat}
    (hentry : memory (pageDirectory + SIZEOF_UINT32 * (page / PAGE_TAB_ENTRIES)) =
      KernelLayout.directoryEntry array (d / PAGE_TAB_ENTRIES))
    (halign : array % PAGE_SIZE = 0) (hlt : array + SIZEOF_UINT32 * d < 2 ^ 32)
    (hoffset : page % PAGE_TAB_ENTRIES = d % PAGE_TAB_ENTRIES) :
    lookupPage memory pageDirectory page = entryMapping (memory (array + SIZEOF_UINT32 * d)) := by
  have hframe : (array + SIZEOF_UINT32 * (d / PAGE_TAB_ENTRIES * PAGE_TAB_LEN)) % PAGE_SIZE = 0 := by
    simp only [SIZEOF_UINT32, PAGE_TAB_ENTRIES, PAGE_TAB_LEN, PAGE_SIZE] at *
    omega
  have hframeLt : array + SIZEOF_UINT32 * (d / PAGE_TAB_ENTRIES * PAGE_TAB_LEN) < 2 ^ 32 := by
    simp only [SIZEOF_UINT32, PAGE_TAB_ENTRIES, PAGE_TAB_LEN] at *
    omega
  have haddr : array + SIZEOF_UINT32 * (d / PAGE_TAB_ENTRIES * PAGE_TAB_LEN) +
      SIZEOF_UINT32 * (page % PAGE_TAB_ENTRIES) = array + SIZEOF_UINT32 * d := by
    simp only [SIZEOF_UINT32, PAGE_TAB_ENTRIES, PAGE_TAB_LEN] at *
    omega
  rw [KernelLayout.directoryEntry, Nat.or_assoc] at hentry
  simp only [lookupPage, hentry, isPresent_or _ hframe, isWritable_or _ hframe,
    entry_frame hframe hframeLt (show PAG_IS_PRESENT ||| PAG_IS_RW < PAGE_SIZE by decide), haddr]
  rfl

section
variable (hv : k.Valid) (memory : Nat → Nat)
include hv

/-- A page of the first GiB. -/
theorem KernelLayout.Valid.lookup_kernel {page : Nat} (hpage : page < 262144) :
    lookupPage (k.setUp memory) k.pageDirectory page =
      entryMapping (k.setUp memory (k.kernelPageTables + SIZEOF_UINT32 * page)) := by
  have hfits := hv.tablesFit
  simp only [KER_PAGES_NUM_eq, SIZEOF_UINT32] at hfits
  have hindex : page / PAGE_TAB_ENTRIES < 256 := by
    simp only [PAGE_TAB_ENTRIES]
    omega
  refine lookupPage_of_table ?_ hv.tablesAligned (by simp only [SIZEOF_UINT32]; omega) rfl
  rw [hv.setUp_directory memory (Nat.lt_trans hindex (by decide)), if_neg (by omega), if_pos hindex]

/-- A page of the I/O window that has a page table. -/
theorem KernelLayout.Valid.lookup_mmap {d : Nat} (hd : d < 7168) :
    lookupPage (k.setUp memory) k.pageDirectory (0xFE000 + d) =
      entryMapping (k.setUp memory (k.mmapIoPageTables + SIZEOF_UINT32 * d)) := by
  have hfits := hv.mmapFits
  simp only [KER_MMAP_IO_N_PAGES_eq, SIZEOF_UINT32] at hfits
  have hindex : (0xFE000 + d) / PAGE_TAB_ENTRIES = 1016 + d / PAGE_TAB_ENTRIES := by
    simp only [PAGE_TAB_ENTRIES]
    omega
  have hlt : d / PAGE_TAB_ENTRIES < 7 := by
    simp only [PAGE_TAB_ENTRIES]
    omega
  refine lookupPage_of_table ?_ hv.mmapAligned (by simp only [SIZEOF_UINT32]; omega)
    (by simp only [PAGE_TAB_ENTRIES]; omega)
  have hindexLt : 1016 + d / PAGE_TAB_ENTRIES < 1023 := Nat.add_lt_add_left hlt 1016
  rw [hindex, hv.setUp_directory memory (Nat.lt_trans hindexLt (by decide)),
    if_pos ⟨Nat.le_add_right _ _, hindexLt⟩, Nat.add_sub_cancel_left]

/-- A page of one of the areas. -/
theorem KernelLayout.Valid.lookup_area {page : Nat} (hpage : page < k.dataEndPage) :
    lookupPage (k.setUp memory) k.pageDirectory page =
      some ⟨page * PAGE_SIZE, !(decide (k.roStartPage ≤ page) && decide (page < k.roEndPage))⟩ := by
  have hend := hv.apart.dataEnd
  have hframe : PAGE_SIZE * page % PAGE_SIZE = 0 := Nat.mul_mod_right _ _
  have hlt : PAGE_SIZE * page < 2 ^ 32 := by
    simp only [PAGE_SIZE]
    omega
  have hflags : (if page < k.roStartPage then PAG_IS_PRESENT ||| PAG_IS_RW
      else if page < k.roEndPage then PAG_IS_PRESENT else PAG_IS_PRESENT ||| PAG_IS_RW) < PAGE_SIZE := by
    split
    · decide
    · split <;> decide
  rw [hv.lookup_kernel memory (Nat.lt_of_lt_of_le hpage hend), hv.setUp_table memory (by omega),
    if_pos hpage, KernelLayout.areaEntry, entryMapping, isPresent_or _ hframe, isWritable_or _ hframe,
    entry_frame hframe hlt hflags, Nat.mul_comm]
  have hle := hv.paged.start_le
  by_cases hlow : page < k.roStartPage
  · rw [if_pos hlow, decide_eq_false (Nat.not_le.mpr hlow)]
    rfl
  · rw [if_neg hlow, decide_eq_true (Nat.le_of_not_lt hlow)]
    by_cases hro : page < k.roEndPage
    · rw [if_pos hro, decide_eq_true hro]
      rfl
    · rw [if_neg hro, decide_eq_false hro]
      rfl

end

/-! ## When it is the right one -/

/-- The entries behind the cleared part of each array that no later loop writes are
not present from the start. -/
structure PriorClear (k : KernelLayout) (memory : Nat → Nat) : Prop where
  directory : ∀ i, PAGE_DIR_LEN / SIZEOF_UINT32 ≤ i → i < PAGE_DIR_LEN → ¬ DirectoryWindow i →
    isPresent (memory (k.pageDirectory + SIZEOF_UINT32 * i)) = false
  tables : ∀ i, KER_PAGES_NUM / SIZEOF_UINT32 ≤ i → i < KER_PAGES_NUM → k.dataEndPage ≤ i →
    isPresent (memory (k.kernelPageTables + SIZEOF_UINT32 * i)) = false
  mmap : ∀ i, KER_MMAP_IO_N_PAGES / SIZEOF_UINT32 ≤ i →
    i < KER_MMAP_IO_N_PAGES / PAGE_TAB_ENTRIES * PAGE_TAB_LEN →
    isPresent (memory (k.mmapIoPageTables + SIZEOF_UINT32 * i)) = false

theorem directoryWindow_iff (i : Nat) : DirectoryWindow i ↔ i < 256 ∨ 1016 ≤ i ∧ i < 1023 := Iff.rfl

section
variable (hv : k.Valid) {memory : Nat → Nat}
include hv

theorem KernelLayout.Valid.directory_outside (memory : Nat → Nat) {i : Nat} (hi : i < 1024)
    (hout : ¬ DirectoryWindow i) :
    k.setUp memory (k.pageDirectory + SIZEOF_UINT32 * i) =
      memory (k.pageDirectory + SIZEOF_UINT32 * i) := by
  rw [directoryWindow_iff] at hout
  rw [hv.setUp_directory memory hi, if_neg (by omega), if_neg (by omega)]

/-- A page of the first GiB behind the areas. -/
theorem KernelLayout.Valid.lookup_rest_iff {page : Nat} (harea : k.dataEndPage ≤ page)
    (hpage : page < 262144) :
    lookupPage (k.setUp memory) k.pageDirectory page = none ↔
      (65536 ≤ page → isPresent (memory (k.kernelPageTables + SIZEOF_UINT32 * page)) = false) := by
  rw [hv.lookup_kernel memory hpage, entryMapping_eq_none, hv.setUp_table memory hpage,
    if_neg (Nat.not_lt.mpr harea)]
  split
  · next hcleared => exact iff_of_true isPresent_zero fun hge => absurd hcleared (Nat.not_lt.mpr hge)
  · next hcleared => exact ⟨fun h _ => h, fun h => h (Nat.le_of_not_lt hcleared)⟩

/-- A page of the I/O window that has a page table. -/
theorem KernelLayout.Valid.lookup_window_iff {d : Nat} (hd : d < 7168) :
    lookupPage (k.setUp memory) k.pageDirectory (0xFE000 + d) = none ↔
      (2047 ≤ d → isPresent (memory (k.mmapIoPageTables + SIZEOF_UINT32 * d)) = false) := by
  rw [hv.lookup_mmap memory hd, entryMapping_eq_none, hv.setUp_mmap memory (by omega)]
  split
  · next hcleared => exact iff_of_true isPresent_zero fun hge => absurd hcleared (Nat.not_lt.mpr hge)
  · next hcleared => exact ⟨fun h _ => h, fun h => h (Nat.le_of_not_lt hcleared)⟩

/-- The last table of the I/O window has no directory entry. -/
theorem KernelLayout.Valid.lookup_last (h : PriorClear k memory) {d : Nat} (hge : 7168 ≤ d)
    (hlt : 0xFE000 + d < 0xFFFFF) : lookupPage (k.setUp memory) k.pageDirectory (0xFE000 + d) = none := by
  have hindex : (0xFE000 + d) / PAGE_TAB_ENTRIES = 1023 := by
    simp only [PAGE_TAB_ENTRIES]
    omega
  have hout : ¬ DirectoryWindow 1023 := by
    rw [directoryWindow_iff]
    decide
  have hentry := h.directory 1023 (by decide) (by decide) hout
  rw [← hv.directory_outside memory (by decide) hout] at hentry
  simp only [lookupPage, hindex, hentry]
  rfl

/-- Stale entries are part of the map. -/
theorem KernelLayout.Valid.priorClear_of_map (h : KernelMap k (k.setUp memory)) :
    PriorClear k memory := by
  have hend := hv.paged.dataEnd_eq
  refine ⟨fun i _ hi hout => ?_, fun i hge hi harea => ?_, fun i hge hi => ?_⟩
  · rw [← hv.directory_outside memory hi hout]
    exact h.directory i hi hout
  · refine (hv.lookup_rest_iff harea hi).mp (h.rest i ?_ ?_) hge
    · rw [hend, Nat.mul_comm]
      exact Nat.mul_le_mul_right _ harea
    · exact Nat.mul_lt_mul_of_pos_right hi (by decide : 0 < PAGE_SIZE)
  · have hd : i < 7168 := hi
    refine (hv.lookup_window_iff hd).mp (h.window _ ?_ ?_) hge
    · exact Nat.mul_le_mul_right PAGE_SIZE (Nat.le_add_right 0xFE000 i)
    · simp only [KER_MMAP_IO_ADDR_END, pageAlignFloor, PAGE_SIZE]
      omega

/-- Without them the map is right. -/
theorem KernelLayout.Valid.map_of_priorClear (h : PriorClear k memory) : KernelMap k (k.setUp memory) := by
  have hp := hv.paged
  have hstart := hp.start_le
  have hend := hp.end_le
  have hstartEq := hp.start_eq
  have hendEq := hp.end_eq
  have hdataEq := hp.dataEnd_eq
  have hfits := hv.apart.dataEnd
  simp only [PAGE_SIZE] at hstartEq hendEq hdataEq
  refine ⟨?_, ?_, ?_, ?_, ?_, ?_⟩
  -- The three areas.
  · intro page hpage
    simp only [PAGE_SIZE] at hpage
    have hlow : ¬ k.roStartPage ≤ page := by omega
    rw [hv.lookup_area memory (by omega), decide_eq_false hlow]
    rfl
  · intro page hge hlt
    simp only [PAGE_SIZE] at hge hlt
    have hro : k.roStartPage ≤ page := by omega
    have hro' : page < k.roEndPage := by omega
    rw [hv.lookup_area memory (by omega), decide_eq_true hro, decide_eq_true hro']
    rfl
  · intro page hge hlt
    simp only [PAGE_SIZE] at hge hlt
    have hout : ¬ page < k.roEndPage := by omega
    rw [hv.lookup_area memory (by omega), decide_eq_false hout, Bool.and_false]
    rfl
  -- What is to be absent: behind the areas, in the window, and in the directory.
  · intro page hge hlt
    simp only [PAGE_SIZE, KER_MEM_MAX_SIZE] at hge hlt
    have harea : k.dataEndPage ≤ page := by omega
    have hpage : page < 262144 := by omega
    exact (hv.lookup_rest_iff harea hpage).mpr fun hcleared => h.tables page hcleared hpage harea
  · intro page hge hlt
    have hge' : 0xFE000 ≤ page := Nat.le_of_mul_le_mul_right hge (by decide : 0 < PAGE_SIZE)
    have hlt' : page < 0xFFFFF := Nat.lt_of_mul_lt_mul_right (a := PAGE_SIZE) hlt
    obtain ⟨d, rfl⟩ := Nat.exists_eq_add_of_le hge'
    rcases Nat.lt_or_ge d 7168 with hd | hd
    · exact (hv.lookup_window_iff hd).mpr fun hcleared => h.mmap d hcleared hd
    · exact hv.lookup_last h hd hlt'
  · intro i hi hout
    rw [hv.directory_outside memory hi hout]
    refine h.directory i ?_ hi hout
    exact Nat.le_of_not_lt fun hlt => hout (Or.inl hlt)

/-- What holds of the memory after a run. -/
theorem KernelLayout.Valid.run_iff (memory : Nat → Nat) (P : (Nat → Nat) → Prop) :
    (∃ r, initPaging k memory = some r ∧ P r.memory) ↔ P (k.setUp memory) := by
  have hrun := hv.initPaging_eq memory
  generalize k.setUp memory = final at hrun ⊢
  constructor
  · rintro ⟨r, hr, hP⟩
    obtain rfl := Option.some.inj (hr.symm.trans hrun)
    exact hP
  · exact fun h => ⟨_, hrun, h⟩

end

/-- `InitPaging` establishes the kernel's map over a memory iff the entries it
neither clears nor writes are not present in it. -/
theorem initPaging_map_iff (k : KernelLayout) (memory : Nat → Nat) (hv : k.Valid) :
    (∃ r, initPaging k memory = some r ∧ KernelMap k r.memory) ↔ PriorClear k memory :=
  (hv.run_iff memory (KernelMap k)).trans ⟨hv.priorClear_of_map, hv.map_of_priorClear⟩

/-- A kernel of seven MiB with the arrays in its data area. -/
def smallKernel : KernelLayout where
  pageDirectory := 0x200000
  kernelPageTables := 0x400000
  mmapIoPageTables := 0x600000
  kerRoAreaStart := 0x100000
  kerRoAreaSize := 0x10000
  kerRoAreaEnd := 0x110000
  kerDataSize := 0x5F0000

theorem smallKernel_valid : smallKernel.Valid := by
  constructor <;> decide

/-- Over a memory of zeros the map is right. -/
theorem initPaging_map_zero :
    ∃ r, initPaging smallKernel (fun _ => 0) = some r ∧ KernelMap smallKernel r.memory :=
  (initPaging_map_iff smallKernel (fun _ => 0) smallKernel_valid).mpr
    ⟨fun _ _ _ _ => isPresent_zero, fun _ _ _ _ => isPresent_zero, fun _ _ _ => isPresent_zero⟩

/-- Over a memory of ones it is not: the directory is cleared to its 256th entry only. -/
theorem initPaging_map_stale :
    ¬ ∀ (k : KernelLayout) (memory : Nat → Nat), k.Valid →
      ∃ r, initPaging k memory = some r ∧ KernelMap k r.memory := by
  intro hall
  have hrun := hall smallKernel (fun _ => 1) smallKernel_valid
  have hmap := (smallKernel_valid.run_iff (fun _ => 1) (KernelMap smallKernel)).mp hrun
  have hout : ¬ DirectoryWindow 256 := by
    rw [directoryWindow_iff]
    decide
  exact absurd ((smallKernel_valid.priorClear_of_map hmap).directory 256 (by decide) (by decide) hout)
    (by decide)

end TalOS
