-- SUMMARY: What the MMU makes of the tables that `mem_map` has written.
import TalOS.Arch.PageMapping

/-!
# Translation

The MMU finds the entry of an address as `is_mapped` does and puts the offset in
the page behind the frame. `mem_map` is asked for a range of bytes: after it, each
byte of the logical range should lead to its byte of the physical one.
-/

open MachineInt

namespace TalOS

/-- The physical address of a logical one, none if an entry is absent. -/
def translate (directory tables : Nat → Nat) (addr : Nat) : Option Nat :=
  let entry := directory (getPagDirIndex addr)
  if isPresent entry then
    let pageEntry := tables (pageAddress entry + 4 * getPagTabIndex addr)
    if isPresent pageEntry then some (pageAddress pageEntry + addr % PAGE_SIZE) else none
  else none

/-- What a mapping is for: with a pointer returned, the range and the pointer
lead to where they should. -/
def Covers (directory tables : Nat → Nat) (phyAddress logiAddress memsize : Nat) (r : MapResult) :
    Prop :=
  r.retAddr ≠ 0 →
    (∀ j < memsize, translate directory (applyStores tables r.stores) (logiAddress + j) =
      some (phyAddress + j)) ∧
    translate directory (applyStores tables r.stores) r.retAddr = some phyAddress

/-- No two pages of the range share an entry, as they do where two directory
entries lead to one page table. -/
def SlotsDistinct (directory : Nat → Nat) (logiAddress memsize : Nat) : Prop :=
  ((pagesOf logiAddress memsize).map (entryAddress directory)).Nodup

variable {directory tables : Nat → Nat} {phyAddress logiAddress memsize : Nat}

/-- An address is translated through the entry of its page. -/
theorem translate_eq (directory tables : Nat → Nat) (addr : Nat) :
    translate directory tables addr =
      if isPresent (directory (addr / PAGE_SIZE / PAGE_TAB_ENTRIES)) then
        if isPresent (tables (entryAddress directory (addr / PAGE_SIZE))) then
          some (pageAddress (tables (entryAddress directory (addr / PAGE_SIZE))) + addr % PAGE_SIZE)
        else none
      else none := rfl

/-- The offset in the page is kept. -/
theorem translate_mod {addr phy : Nat} (h : translate directory tables addr = some phy) :
    phy % PAGE_SIZE = addr % PAGE_SIZE := by
  rw [translate_eq] at h
  split_ifs at h
  have hframe := pageAddress_mod (tables (entryAddress directory (addr / PAGE_SIZE)))
  rw [← Option.some.inj h, Nat.add_mod, hframe, Nat.zero_add, Nat.mod_mod, Nat.mod_mod]

/-- Pages with one entry have one translation. -/
theorem translate_congr {page page' phy phy' : Nat}
    (hentry : entryAddress directory page = entryAddress directory page')
    (h : translate directory tables (page * PAGE_SIZE) = some phy)
    (h' : translate directory tables (page' * PAGE_SIZE) = some phy') : phy = phy' := by
  have hdiv (n : Nat) : n * PAGE_SIZE / PAGE_SIZE = n := Nat.mul_div_cancel n (by decide)
  have hmod (n : Nat) : n * PAGE_SIZE % PAGE_SIZE = 0 := Nat.mul_mod_left n _
  rw [translate_eq, hdiv, hmod] at h h'
  split_ifs at h h'
  rw [← Option.some.inj h, ← Option.some.inj h', hentry]

/-- With all its tables there, the range's first page is returned. -/
theorem memMap_retAddr (hpresent : TablesPresent directory logiAddress memsize) (hsize : 1 ≤ memsize)
    (hrange : logiAddress + memsize ≤ 2 ^ 32) (phyAddress : Nat) (isWritable isCacheble : Bool)
    (mappedSize : Option Nat) :
    (memMap directory phyAddress logiAddress memsize isWritable isCacheble mappedSize).retAddr =
      pageAlignFloor logiAddress := by
  rcases memMap_cases directory phyAddress logiAddress memsize isWritable isCacheble mappedSize with
    ⟨⟨i, hi, habsent⟩, -⟩ | ⟨-, hmap⟩
  · exact absurd (hpresent.check hsize hrange hi) (by simp [habsent])
  · rw [hmap]

/-- A byte of the range is in one of its pages. -/
theorem page_mem_pagesOf {j : Nat} (hj : j < memsize) :
    (logiAddress + j) / PAGE_SIZE ∈ pagesOf logiAddress memsize := by
  rw [mem_pagesOf (Nat.succ_le_of_lt (Nat.zero_lt_of_lt hj))]
  exact ⟨Nat.div_le_div_right (Nat.le_add_right _ _), Nat.div_le_div_right (by omega)⟩

/-- A page of an aligned range starts with a byte of the range. -/
theorem exists_byte_of_page (haligned : logiAddress % PAGE_SIZE = 0) (hsize : 1 ≤ memsize) {page : Nat}
    (hpage : page ∈ pagesOf logiAddress memsize) :
    ∃ j < memsize, page * PAGE_SIZE = logiAddress + j := by
  obtain ⟨hge, hle⟩ := (mem_pagesOf hsize).mp hpage
  have hstart : firstPage logiAddress * PAGE_SIZE = logiAddress :=
    Nat.div_mul_cancel (Nat.dvd_of_mod_eq_zero haligned)
  have hmul := Nat.mul_le_mul_right PAGE_SIZE hge
  have hend := Nat.le_trans (Nat.mul_le_mul_right PAGE_SIZE hle) (Nat.div_mul_le_self _ _)
  exact ⟨page * PAGE_SIZE - logiAddress, by omega, by omega⟩

/-- A range that is covered starts with a page, and its pages have entries of their own. -/
theorem Covers.aligned {r : MapResult} (h : Covers directory tables phyAddress logiAddress memsize r)
    (hret : r.retAddr = pageAlignFloor logiAddress) (hpage : PAGE_SIZE ≤ logiAddress)
    (hoffset : phyAddress % PAGE_SIZE = logiAddress % PAGE_SIZE) (hsize : 1 ≤ memsize) :
    logiAddress % PAGE_SIZE = 0 ∧ SlotsDistinct directory logiAddress memsize := by
  have hne : r.retAddr ≠ 0 := by
    rw [hret]
    exact pageAlignFloor_ne_zero.mpr hpage
  obtain ⟨hbytes, hpointer⟩ := h hne
  have haligned : logiAddress % PAGE_SIZE = 0 := by
    have hmod := translate_mod hpointer
    rw [hret, pageAlignFloor, Nat.mul_mod_left] at hmod
    exact hoffset.symm.trans hmod
  refine ⟨haligned, List.Nodup.map_on ?_ List.nodup_range'⟩
  intro page hmem page' hmem' hentry
  obtain ⟨j, hj, hpagej⟩ := exists_byte_of_page haligned hsize hmem
  obtain ⟨j', hj', hpagej'⟩ := exists_byte_of_page haligned hsize hmem'
  have htranslated := hbytes j hj
  have htranslated' := hbytes j' hj'
  rw [← hpagej] at htranslated
  rw [← hpagej'] at htranslated'
  have hsame := Nat.add_left_cancel (translate_congr hentry htranslated htranslated')
  exact Nat.eq_of_mul_eq_mul_right (by decide : 0 < PAGE_SIZE) (by rw [hpagej, hpagej', hsame])

/-- A byte of a mapped range of whole pages. -/
theorem MappableRange.translate_byte (hr : MappableRange directory logiAddress memsize)
    (hdistinct : SlotsDistinct directory logiAddress memsize) (tables : Nat → Nat)
    (hphy : phyAddress % PAGE_SIZE = 0) (hfits : phyAddress + memsize ≤ 2 ^ 32)
    (isWritable isCacheble : Bool) (mappedSize : Option Nat) {j : Nat} (hj : j < memsize) :
    translate directory (applyStores tables (memMap directory phyAddress logiAddress memsize isWritable
      isCacheble mappedSize).stores) (logiAddress + j) = some (phyAddress + j) := by
  have hpage : (logiAddress + j) / PAGE_SIZE ∈ pagesOf logiAddress memsize := page_mem_pagesOf hj
  have hentry := hr.mapped_entry hdistinct tables hphy isWritable isCacheble mappedSize hpage
  have haligned := hr.aligned
  have hframe : u32 (phyAddress + ((logiAddress + j) / PAGE_SIZE - firstPage logiAddress) * PAGE_SIZE) =
      phyAddress + ((logiAddress + j) / PAGE_SIZE - firstPage logiAddress) * PAGE_SIZE := by
    refine u32_of_lt ?_
    simp only [firstPage, PAGE_SIZE] at *
    omega
  have hmod : (phyAddress + ((logiAddress + j) / PAGE_SIZE - firstPage logiAddress) * PAGE_SIZE) %
      PAGE_SIZE = 0 := by
    rw [Nat.add_mul_mod_self_right, hphy]
  have hlt := u32_lt (phyAddress + ((logiAddress + j) / PAGE_SIZE - firstPage logiAddress) * PAGE_SIZE)
  rw [hframe] at hentry hlt
  rw [translate_eq, if_pos (hr.present _ hpage), hentry,
    if_pos (isPresent_entry hmod isWritable isCacheble), entry_frame hmod hlt (mapFlags_lt _ _)]
  congr 1
  simp only [firstPage, PAGE_SIZE] at *
  omega

/-- `mem_map` covers the range it is asked for iff it maps nothing it can return
a pointer to, or the range starts with a page and its pages have entries of their
own: from within a page the pointer leads to the start of the frame. -/
theorem memMap_covers_iff (directory tables : Nat → Nat) (phyAddress logiAddress memsize : Nat)
    (isWritable isCacheble : Bool) (mappedSize : Option Nat)
    (hoffset : phyAddress % PAGE_SIZE = logiAddress % PAGE_SIZE) (hsize : 1 ≤ memsize)
    (hlogi : logiAddress + memsize ≤ 2 ^ 32) (hphy : phyAddress + memsize ≤ 2 ^ 32)
    (hpresent : TablesPresent directory logiAddress memsize) :
    Covers directory tables phyAddress logiAddress memsize
        (memMap directory phyAddress logiAddress memsize isWritable isCacheble mappedSize) ↔
      logiAddress < PAGE_SIZE ∨
        logiAddress % PAGE_SIZE = 0 ∧ SlotsDistinct directory logiAddress memsize := by
  have hret := memMap_retAddr hpresent hsize hlogi phyAddress isWritable isCacheble mappedSize
  constructor
  · intro h
    rcases Nat.lt_or_ge logiAddress PAGE_SIZE with hlt | hge
    · exact Or.inl hlt
    · exact Or.inr (h.aligned hret hge hoffset hsize)
  · rintro (hlt | ⟨haligned, hdistinct⟩) hne
    · rw [hret] at hne
      exact absurd hlt (Nat.not_lt.mpr (pageAlignFloor_ne_zero.mp hne))
    · have hge : PAGE_SIZE ≤ logiAddress := pageAlignFloor_ne_zero.mp (hret ▸ hne)
      have hle : memsize ≤ 0xFFFFF000 := by
        simp only [PAGE_SIZE] at hge
        omega
      have hr : MappableRange directory logiAddress memsize := ⟨haligned, hsize, hle, hlogi, hpresent⟩
      have hbyte (j : Nat) (hj : j < memsize) := hr.translate_byte hdistinct tables
        (hoffset.trans haligned) hphy isWritable isCacheble mappedSize hj
      refine ⟨hbyte, ?_⟩
      have hfloor : pageAlignFloor logiAddress = logiAddress :=
        Nat.div_mul_cancel (Nat.dvd_of_mod_eq_zero haligned)
      rw [hret, hfloor]
      exact hbyte 0 hsize

/-- Two bytes across the end of a page. -/
theorem memMap_covers_iff_crossing :
    Covers (fun _ => 0x100001) (fun _ => 0) 0x80000FFF 0x40000FFF 2
        (memMap (fun _ => 0x100001) 0x80000FFF 0x40000FFF 2 true true none) ↔
      0x40000FFF < PAGE_SIZE ∨
        0x40000FFF % PAGE_SIZE = 0 ∧ SlotsDistinct (fun _ => 0x100001) 0x40000FFF 2 :=
  memMap_covers_iff (fun _ => 0x100001) (fun _ => 0) 0x80000FFF 0x40000FFF 2 true true none
    (by decide) (by decide) (by decide) (by decide)
    fun _ _ => show isPresent 0x100001 = true by decide

/-- The pointer leads to the start of the frame, and the second byte is left unmapped. -/
theorem memMap_crossing :
    ¬ ∀ (directory tables : Nat → Nat) (phyAddress logiAddress memsize : Nat)
      (isWritable isCacheble : Bool) (mappedSize : Option Nat),
      phyAddress % PAGE_SIZE = logiAddress % PAGE_SIZE → 1 ≤ memsize →
      logiAddress + memsize ≤ 2 ^ 32 → phyAddress + memsize ≤ 2 ^ 32 →
      TablesPresent directory logiAddress memsize →
      Covers directory tables phyAddress logiAddress memsize
        (memMap directory phyAddress logiAddress memsize isWritable isCacheble mappedSize) := by
  intro hall
  have hpresent : TablesPresent (fun _ => 0x100001) 0x40000FFF 2 :=
    fun _ _ => show isPresent 0x100001 = true by decide
  have hcovers := hall (fun _ => 0x100001) (fun _ => 0) 0x80000FFF 0x40000FFF 2 true true none
    (by decide) (by decide) (by decide) (by decide) hpresent
  have hret := memMap_retAddr hpresent (by decide) (by decide) 0x80000FFF true true none
  have haligned := (hcovers.aligned hret (by decide) (by decide) (by decide)).1
  exact absurd haligned (by decide)

end TalOS
