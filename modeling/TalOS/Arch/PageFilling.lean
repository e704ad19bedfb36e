-- SUMMARY: `page_mapping`: when its loop comes to an end, and the entries it has written then.
import TalOS.Arch.InitPaging

/-!
# Filling a page table

The loop of `page_mapping` counts the size of the area down by a page at a time
and stops at zero. A size that is no multiple of the page size never gets there:
it wraps around and keeps its remainder.
-/

open MachineInt

namespace TalOS

/-- `page_mapping` comes to its end, having made these stores. -/
def PageMappingEnds (pPageTable phyAddrStart areaSize flags : Nat) (stores : List Store) : Prop :=
  ∃ fuel, pageMappingLoop flags fuel pPageTable (pageAddress phyAddrStart) areaSize = some stores

/-- The number of pages an area takes, one that is begun counted in full. -/
def areaPages (areaSize : Nat) : Nat := (areaSize + PAGE_SIZE - 1) / PAGE_SIZE

/-- Counting down keeps the remainder, also when it wraps. -/
theorem not_dvd_sub32 {areaSize : Nat} (h : ¬ PAGE_SIZE ∣ areaSize) :
    ¬ PAGE_SIZE ∣ sub32 areaSize PAGE_SIZE := by
  simp only [PAGE_SIZE, sub32] at h ⊢
  omega

/-- Over anything else it has no end. -/
theorem pageMappingLoop_endless (flags : Nat) {fuel pPageTable start areaSize : Nat}
    (h : ¬ PAGE_SIZE ∣ areaSize) : pageMappingLoop flags fuel pPageTable start areaSize = none := by
  induction fuel generalizing pPageTable start areaSize with
  | zero => rfl
  | succ fuel ih =>
    have hpos : areaSize > 0 := Nat.pos_of_ne_zero fun hzero => h (hzero ▸ Nat.dvd_zero _)
    rw [pageMappingLoop, if_pos hpos, ih (not_dvd_sub32 h)]
    rfl

theorem areaPages_mul (n : Nat) : areaPages (PAGE_SIZE * n) = n := by
  simp only [areaPages, PAGE_SIZE]
  omega

/-- The turns that `pageMapping` allows are enough for every area that comes to an end. -/
theorem pageMapping_eq_ite {pPageTable phyAddrStart areaSize flags : Nat} (htable : pPageTable < 2 ^ 32)
    (harea : areaSize < 2 ^ 32) :
    pageMapping pPageTable phyAddrStart areaSize flags =
      if PAGE_SIZE ∣ areaSize then
        some (pageEntries pPageTable (pageAddress phyAddrStart) (areaPages areaSize) flags)
      else none := by
  split
  · next hdvd =>
    obtain ⟨n, rfl⟩ := hdvd
    have hfuel : n < 2 ^ 20 + 1 := by
      simp only [PAGE_SIZE] at harea
      omega
    rw [areaPages_mul]
    exact pageMappingLoop_whole flags hfuel harea htable (pageAddress_lt _)
  · next hdvd => exact pageMappingLoop_endless flags hdvd

/-- For every table, start address, size and flags: the loop ends, with exactly the entries of the area, iff the
size is a multiple of the page size. -/
theorem pageMapping_ends_iff (pPageTable phyAddrStart areaSize flags : Nat) (htable : pPageTable < 2 ^ 32)
    (harea : areaSize < 2 ^ 32) :
    PageMappingEnds pPageTable phyAddrStart areaSize flags
        (pageEntries pPageTable (pageAddress phyAddrStart) (areaPages areaSize) flags) ↔
      PAGE_SIZE ∣ areaSize := by
  constructor
  · rintro ⟨fuel, hends⟩
    by_contra hdvd
    rw [pageMappingLoop_endless flags hdvd] at hends
    cases hends
  · rintro ⟨n, rfl⟩
    refine ⟨n + 1, ?_⟩
    rw [areaPages_mul]
    exact pageMappingLoop_whole flags (Nat.lt_succ_self n) harea htable (pageAddress_lt _)

/-- Two pages. -/
theorem pageMapping_ends_two :
    PageMappingEnds 0x400000 0x100123 0x2000 3 [⟨0x400000, 0x100003⟩, ⟨0x400004, 0x101003⟩] :=
  (pageMapping_ends_iff 0x400000 0x100123 0x2000 3 (by decide) (by decide)).mpr (by decide)

/-- A page and a half: the loop goes on for ever. -/
theorem not_pageMapping_ends :
    ¬ ∀ pPageTable phyAddrStart areaSize flags : Nat, pPageTable < 2 ^ 32 → areaSize < 2 ^ 32 →
      PageMappingEnds pPageTable phyAddrStart areaSize flags
        (pageEntries pPageTable (pageAddress phyAddrStart) (areaPages areaSize) flags) := by
  intro hall
  obtain ⟨fuel, hends⟩ := hall 0x400000 0x100000 0x1800 3 (by decide) (by decide)
  rw [pageMappingLoop_endless 3 (by decide)] at hends
  cases hends

end TalOS
