-- SUMMARY: `acpi_find_table` over tables of any `Length`: what it finds and which of the pointers it follows.
import TalOS.Arch.Acpi

/-!
# Searching a table list

The loop of `acpi_find_table` once more, with the addresses of the pointers that
it dereferences next to its result. The list of an RSDT or XSDT is what lies
between its header and its `Length`.
-/

namespace TalOS

open MachineInt Access

/-! ## The search with what it reads -/

/-- Address of `PointerToOtherSDT[i]`. -/
def sdtSlot (byte : Nat → UInt8) (sdtStart i : Nat) : Nat :=
  u32 (sdtStart + SIZEOF_ACPI_HEADER + sdtEntrySize (isXsdt byte sdtStart) * i)

/-- The result of a search, and the slots it has dereferenced. -/
structure TableSearch where
  found : Nat
  slots : List Nat
deriving Repr, DecidableEq

/-- The loop of `acpi_find_table`, from entry `i` on with `n` entries left. -/
def searchLoop (byte : Nat → UInt8) (sdtStart : Nat) (tableSignature : List UInt8) :
    Nat → Nat → TableSearch
  | 0, _ => ⟨0, []⟩
  | n + 1, i =>
    let retHdr := listedTable byte sdtStart i
    if bytesAt byte retHdr ACPI_SIGN_LEN = tableSignature then ⟨retHdr, [sdtSlot byte sdtStart i]⟩
    else
      let rest := searchLoop byte sdtStart tableSignature n (i + 1)
      { rest with slots := sdtSlot byte sdtStart i :: rest.slots }

/-- `acpi_find_table` -/
def searchTable (byte : Nat → UInt8) (sdtStart : Nat) (tableSignature : List UInt8) : TableSearch :=
  searchLoop byte sdtStart tableSignature (sdtEntries byte sdtStart) 0

variable {byte : Nat → UInt8} {sdtStart : Nat} {signature : List UInt8}

theorem findTableLoop_all (byte : Nat → UInt8) (sdtStart : Nat) (signature : List UInt8) (n i : Nat) :
    findTableLoop (.all byte) (isXsdt byte sdtStart) sdtStart signature n i =
      .ok (searchLoop byte sdtStart signature n i).found := by
  induction n generalizing i with
  | zero => rfl
  | succ n ih =>
    simp only [findTableLoop, searchLoop, sdtEntry_all, ok_bind, loadBytes_all]
    by_cases hsig : bytesAt byte (listedTable byte sdtStart i) ACPI_SIGN_LEN = signature
    · rw [if_pos hsig]
      exact if_pos hsig
    · rw [if_neg hsig]
      exact (if_neg hsig).trans (ih (i + 1))

/-- Without the slots this is the search of the source. -/
theorem acpiFindTable_eq (byte : Nat → UInt8) (sdtStart : Nat) (signature : List UInt8) :
    acpiFindTable (.all byte) sdtStart signature = .ok (searchTable byte sdtStart signature).found := by
  rw [acpiFindTable_all, findTableLoop_all]
  rfl

/-! ## What it should do -/

/-- `hdr.Length` -/
def sdtLength (byte : Nat → UInt8) (sdtStart : Nat) : Nat := leValue byte (u32 (sdtStart + 4)) 4

/-- The tables in the list: none if the header does not fit. -/
def tableList (byte : Nat → UInt8) (sdtStart : Nat) : List Nat :=
  (List.range' 0 ((sdtLength byte sdtStart - SIZEOF_ACPI_HEADER) /
    sdtEntrySize (isXsdt byte sdtStart))).map (listedTable byte sdtStart)

/-- The first table with the signature, `NULL` if there is none. -/
def firstMatch (byte : Nat → UInt8) (signature : List UInt8) (tables : List Nat) : Nat :=
  (tables.find? fun retHdr => bytesAt byte retHdr ACPI_SIGN_LEN = signature).getD 0

/-- The search finds the first table of the list and reads no pointer outside. -/
structure SearchExact (byte : Nat → UInt8) (sdtStart : Nat) (signature : List UInt8) : Prop where
  found : acpiFindTable (.all byte) sdtStart signature =
    .ok (firstMatch byte signature (tableList byte sdtStart))
  inside : ∀ slot ∈ (searchTable byte sdtStart signature).slots,
    ∀ k < sdtEntrySize (isXsdt byte sdtStart),
      inRange sdtStart (sdtLength byte sdtStart) (u32 (slot + k)) = true

theorem searchLoop_found (byte : Nat → UInt8) (sdtStart : Nat) (signature : List UInt8) (n i : Nat) :
    (searchLoop byte sdtStart signature n i).found =
      firstMatch byte signature ((List.range' i n).map (listedTable byte sdtStart)) := by
  induction n generalizing i with
  | zero => rfl
  | succ n ih =>
    rw [searchLoop, List.range'_succ, List.map_cons, firstMatch]
    by_cases hsig : bytesAt byte (listedTable byte sdtStart i) ACPI_SIGN_LEN = signature
    · rw [List.find?_cons_of_pos (by simpa using hsig)]
      simp only [if_pos hsig, Option.getD_some]
    · rw [List.find?_cons_of_neg (by simpa using hsig)]
      simp only [if_neg hsig]
      exact ih (i + 1)

/-- The slots are those of the entries the loop may reach. -/
theorem searchLoop_slots {n i slot : Nat} (h : slot ∈ (searchLoop byte sdtStart signature n i).slots) :
    ∃ j, i ≤ j ∧ j < i + n ∧ slot = sdtSlot byte sdtStart j := by
  induction n generalizing i with
  | zero => exact nomatch h
  | succ n ih =>
    rw [searchLoop] at h
    have hfirst : ∃ j, i ≤ j ∧ j < i + (n + 1) ∧ sdtSlot byte sdtStart i = sdtSlot byte sdtStart j :=
      ⟨i, Nat.le_refl i, Nat.lt_add_of_pos_right (Nat.succ_pos n), rfl⟩
    split at h
    · obtain rfl := List.mem_singleton.mp h
      exact hfirst
    · rcases List.mem_cons.mp h with rfl | h
      · exact hfirst
      · obtain ⟨j, hle, hlt, hj⟩ := ih h
        exact ⟨j, by omega, by omega, hj⟩

/-- A loop with an entry left reads that entry. -/
theorem searchLoop_slots_head (byte : Nat → UInt8) (sdtStart : Nat) (signature : List UInt8)
    (n i : Nat) :
    sdtSlot byte sdtStart i ∈ (searchLoop byte sdtStart signature (n + 1) i).slots := by
  rw [searchLoop]
  split
  · exact List.mem_singleton.mpr rfl
  · exact List.mem_cons_self

/-! ## When it does -/

theorem sdtLength_lt (byte : Nat → UInt8) (sdtStart : Nat) : sdtLength byte sdtStart < 2 ^ 32 :=
  leValue_lt byte _ 4

theorem sdtEntrySize_pos (isXSDT : Bool) : 0 < sdtEntrySize isXSDT := by
  cases isXSDT <;> decide

/-- With the header inside the `Length`, the number of entries is as it should be. -/
theorem sdtEntries_of_le (h : SIZEOF_ACPI_HEADER ≤ sdtLength byte sdtStart) :
    sdtEntries byte sdtStart =
      (sdtLength byte sdtStart - SIZEOF_ACPI_HEADER) / sdtEntrySize (isXsdt byte sdtStart) := by
  rw [sdtEntries, ← sub32_of_le h (sdtLength_lt byte sdtStart)]
  rfl

/-- With a shorter one the subtraction wraps, and there are entries. -/
theorem sdtEntries_pos_of_lt (h : sdtLength byte sdtStart < SIZEOF_ACPI_HEADER) :
    0 < sdtEntries byte sdtStart := by
  have hsize : sdtEntrySize (isXsdt byte sdtStart) ≤ 8 := by
    cases isXsdt byte sdtStart <;> decide
  have hwrap : 8 ≤ sub32 (sdtLength byte sdtStart) SIZEOF_ACPI_HEADER := by
    unfold sub32 SIZEOF_ACPI_HEADER at *
    omega
  exact Nat.div_pos (Nat.le_trans hsize hwrap) (sdtEntrySize_pos _)

/-- A byte of a slot, by its distance from the table. -/
theorem inRange_sdtSlot (byte : Nat → UInt8) (sdtStart i k : Nat) :
    inRange sdtStart (sdtLength byte sdtStart) (u32 (sdtSlot byte sdtStart i + k)) =
      decide (u32 (SIZEOF_ACPI_HEADER + (sdtEntrySize (isXsdt byte sdtStart) * i + k)) <
        sdtLength byte sdtStart) := by
  rw [sdtSlot, u32_add_mod, Nat.add_assoc, Nat.add_assoc, inRange_add]

/-- The search is exact for every list whose `Length` covers the header, and for no other. -/
theorem acpiFindTable_exact_iff (byte : Nat → UInt8) (sdtStart : Nat) (signature : List UInt8) :
    SearchExact byte sdtStart signature ↔ SIZEOF_ACPI_HEADER ≤ sdtLength byte sdtStart := by
  have hlt := sdtLength_lt byte sdtStart
  constructor
  · intro hexact
    by_contra hshort
    obtain ⟨n, hn⟩ := Nat.exists_eq_add_of_lt (sdtEntries_pos_of_lt (Nat.lt_of_not_le hshort))
    have hread : sdtSlot byte sdtStart 0 ∈ (searchTable byte sdtStart signature).slots := by
      rw [searchTable, hn, Nat.zero_add]
      exact searchLoop_slots_head byte sdtStart signature n 0
    have hinside := hexact.inside _ hread 0 (sdtEntrySize_pos _)
    rw [inRange_sdtSlot, decide_eq_true_iff, u32_of_lt (by simp [SIZEOF_ACPI_HEADER])] at hinside
    omega
  · intro hle
    refine ⟨?_, ?_⟩
    · rw [acpiFindTable_eq, searchTable, searchLoop_found, sdtEntries_of_le hle, tableList]
    · intro slot hslot k hk
      obtain ⟨i, -, hi, rfl⟩ := searchLoop_slots hslot
      rw [Nat.zero_add, sdtEntries_of_le hle] at hi
      have hentry : sdtEntrySize (isXsdt byte sdtStart) * (i + 1) ≤
          sdtLength byte sdtStart - SIZEOF_ACPI_HEADER :=
        Nat.le_trans (Nat.mul_le_mul_left _ hi) (Nat.mul_div_le _ _)
      have hend : SIZEOF_ACPI_HEADER + (sdtEntrySize (isXsdt byte sdtStart) * i + k) <
          sdtLength byte sdtStart := by
        rw [Nat.mul_succ] at hentry
        omega
      rw [inRange_sdtSlot, decide_eq_true_iff, u32_of_lt (Nat.lt_trans hend hlt)]
      exact hend

/-- An RSDT whose `Length` is 0 and whose neighbour in memory is a table. -/
def emptyRsdt (a : Nat) : UInt8 :=
  (List.lookup a [(0x64, 0x80), (0x80, 0x41), (0x81, 0x50), (0x82, 0x49), (0x83, 0x43)]).getD 0

/-- The list is empty, and a table is found. -/
theorem acpiFindTable_empty :
    ¬ ∀ (byte : Nat → UInt8) (sdtStart : Nat) (signature : List UInt8),
      SearchExact byte sdtStart signature := by
  intro hall
  have hresult := (hall emptyRsdt 0x40 MADT_LABEL).found
  rw [acpiFindTable_eq] at hresult
  have hfound : (searchTable emptyRsdt 0x40 MADT_LABEL).found = 0x80 := by
    rw [searchTable, show sdtEntries emptyRsdt 0x40 = 0x3FFFFFF6 + 1 by decide]
    rfl
  have hnone : firstMatch emptyRsdt MADT_LABEL (tableList emptyRsdt 0x40) = 0 := by decide
  exact absurd (hfound.symm.trans ((Except.ok.inj hresult).trans hnone)) (by decide)

end TalOS
