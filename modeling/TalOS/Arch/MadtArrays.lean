-- SUMMARY: The arrays that `acpi_get_MADT_info` fills: when they suffice, and what the pointers in them lead to.
import TalOS.Arch.Madt

/-!
# The arrays of `MADT_info_t`

All memory may be read here, so that the only undefined step of a run is a store
past the end of an array.
-/

namespace TalOS

open MachineInt Access

variable {byte : Nat → UInt8} {ptr ptrEnd fuel header rsdp : Nat} {info : MadtInfo}

/-! ## Stores past an array -/

theorem PtrTable.store_of_full {t : PtrTable} (h : ¬ t.num < t.slots.length) (p : Nat) :
    t.store p = .error .undefined := if_neg h

theorem parseRecord_of_room (h : info.HasRoom (entryType byte ptr)) :
    parseRecord (.all byte) ptr info = .ok (info.addRecord byte ptr) :=
  ((parseRecord_eq_ok (m := .all byte)).mpr ⟨⟨fun f _ => readable_all byte _ f.2, h⟩, rfl⟩).1

/-- A record whose array is full, one case per array. -/
theorem parseRecord_of_full (h : ¬ info.HasRoom (entryType byte ptr)) :
    parseRecord (.all byte) ptr info = .error .undefined := by
  obtain ⟨t, ht, hfull⟩ : ∃ t, info.tableOf (entryType byte ptr) = some t ∧
      ¬ t.num < t.slots.length := by
    simpa [MadtInfo.HasRoom] using h
  simp only [parseRecord, load_all, ok_bind]
  unfold entryType MadtInfo.tableOf at ht
  split_ifs at ht with h0 h1 h2 h4
  · obtain rfl := Option.some.inj ht
    rw [if_pos h0, PtrTable.store_of_full hfull]
    rfl
  · obtain rfl := Option.some.inj ht
    rw [if_neg h0, if_pos h1, PtrTable.store_of_full hfull]
    rfl
  · obtain rfl := Option.some.inj ht
    rw [if_neg h0, if_neg h1, if_pos h2, PtrTable.store_of_full hfull]
    rfl
  · obtain rfl := Option.some.inj ht
    have h5 : ¬ leValue byte ptr 1 = MADT_ENT_LAPIC_ADDR_OVER := by
      rw [h4]
      decide
    rw [if_neg h0, if_neg h1, if_neg h2, if_neg h5, if_pos h4, PtrTable.store_of_full hfull]
    rfl

/-- A turn of the loop over readable memory. -/
theorem recordLoop_all (hlt : ptr < ptrEnd) :
    recordLoop (.all byte) ptrEnd (fuel + 1) ptr info = .error .undefined ↔
      info.HasRoom (entryType byte ptr) →
        recordLoop (.all byte) ptrEnd fuel (turn byte (ptr, info)).1 (turn byte (ptr, info)).2 =
          .error .undefined := by
  rw [recordLoop, if_pos hlt]
  by_cases hroom : info.HasRoom (entryType byte ptr)
  · rw [parseRecord_of_room hroom, ok_bind, load_all, ok_bind]
    exact ⟨fun h _ => h, fun h => h hroom⟩
  · rw [parseRecord_of_full hroom]
    exact iff_of_true rfl fun h => absurd h hroom

/-- The loop gets to an undefined store iff one of its positions has a record without room. -/
theorem recordLoop_undefined_iff :
    recordLoop (.all byte) ptrEnd fuel ptr info = .error .undefined ↔
      ∃ n < fuel, (∀ i ≤ n, ((turn byte)^[i] (ptr, info)).1 < ptrEnd) ∧
        ¬ ((turn byte)^[n] (ptr, info)).2.HasRoom (entryType byte ((turn byte)^[n] (ptr, info)).1) := by
  induction fuel generalizing ptr info with
  | zero => exact iff_of_false (by simp [recordLoop]) (by simp)
  | succ fuel ih =>
    by_cases hlt : ptr < ptrEnd
    · rw [recordLoop_all hlt]
      by_cases hroom : info.HasRoom (entryType byte ptr)
      · rw [forall_prop_of_true hroom, ih]
        constructor
        · rintro ⟨n, hn, hvisited, hfull⟩
          refine ⟨n + 1, Nat.succ_lt_succ hn, ?_, hfull⟩
          intro i hi
          cases i with
          | zero => exact hlt
          | succ i => exact hvisited i (Nat.le_of_succ_le_succ hi)
        · rintro ⟨n, hn, hvisited, hfull⟩
          cases n with
          | zero => exact absurd hroom hfull
          | succ n =>
            exact ⟨n, Nat.lt_of_succ_lt_succ hn, fun i hi => hvisited (i + 1) (Nat.succ_le_succ hi),
              hfull⟩
      · refine iff_of_true (fun h => absurd h hroom) ⟨0, Nat.succ_pos _, ?_, hroom⟩
        intro i hi
        obtain rfl := Nat.le_zero.mp hi
        exact hlt
    · rw [recordLoop, if_neg hlt]
      refine iff_of_false (by simp [pure, Except.pure]) ?_
      rintro ⟨n, -, hvisited, -⟩
      exact hlt (hvisited 0 (Nat.zero_le n))

/-! ## When the arrays suffice -/

/-- Each record that goes into an array finds a slot there: the ones before it of its
type (of processors, the usable ones) are fewer than the array has. -/
def ArraysSuffice (byte : Nat → UInt8) (header : Nat) : Prop :=
  ∀ k, RecordVisited byte header k →
    ∀ c, capacity (entryType byte (recordAt byte header k)) = some c →
      slotsTaken byte (firstRecord header) (entryType byte (recordAt byte header k)) k < c

/-- No store of the parser is past the end of an array iff the arrays suffice for the records. -/
theorem acpiGetMadtInfo_storesInside_iff (byte : Nat → UInt8) (rsdp header : Nat)
    (hlists : ListsMadt byte rsdp header) (haccepted : MadtAccepted byte header) :
    (∀ fuel, acpiGetMadtInfo (.all byte) fuel rsdp ≠ .error .undefined) ↔
      ArraysSuffice byte header := by
  have hrun (fuel : Nat) : acpiGetMadtInfo (.all byte) fuel rsdp = .error .undefined ↔
      recordLoop (.all byte) (madtEnd byte header) fuel (firstRecord header)
        (.start (leValue byte (u32 (header + SIZEOF_ACPI_HEADER)) 4)) = .error .undefined := by
    rw [hlists.getMadtInfo haccepted]
    cases recordLoop (.all byte) (madtEnd byte header) fuel (firstRecord header) _ with
    | ok info => exact iff_of_false nofun nofun
    | error e => exact ⟨fun h => congrArg _ (Except.error.inj h), fun h => congrArg _ (Except.error.inj h)⟩
  simp only [ne_eq, hrun, recordLoop_undefined_iff, hasRoom_iterate_iff, turn_iterate_fst]
  constructor
  · intro h k hvisited
    by_contra hfull
    exact h (k + 1) ⟨k, Nat.lt_succ_self k, hvisited, hfull⟩
  · rintro h fuel ⟨k, -, hvisited, hfull⟩
    exact hfull (h k hvisited)

theorem acpiGetMadtInfo_storesInside_tiny :
    (∀ fuel, acpiGetMadtInfo (.all (tinyMadt 0 54)) fuel 0x10 ≠ .error .undefined) ↔
      ArraysSuffice (tinyMadt 0 54) 0x80 :=
  acpiGetMadtInfo_storesInside_iff (tinyMadt 0 54) 0x10 0x80 tinyMadt_zero_lists tinyMadt_accepted

/-- An RSDP at 0x10, an RSDT at 0x40 and a MADT at 0x80 with seventeen I/O APICs. -/
def seventeenIoapics (a : Nat) : UInt8 :=
  if 0xAC ≤ a ∧ a < 0x178 then [1, 12].getD ((a - 0xAC) % 12) 0
  else (List.lookup a [(0x20, 0x40), (0x44, 40), (0x64, 0x80),
    (0x80, 0x41), (0x81, 0x50), (0x82, 0x49), (0x83, 0x43), (0x84, 248), (0x89, 14)]).getD 0

theorem seventeenIoapics_lists : ListsMadt seventeenIoapics 0x10 0x80 where
  rsdp_ne := by decide
  rsdt_ne := by decide
  signature := by decide
  listed := ⟨0, by decide, by decide, nofun⟩

theorem seventeenIoapics_accepted : MadtAccepted seventeenIoapics 0x80 where
  header_ne := by decide
  checksum := by decide +kernel

/-- The seventeenth is stored behind its array of sixteen. -/
theorem acpiGetMadtInfo_overruns :
    ¬ ∀ (byte : Nat → UInt8) (rsdp header : Nat), ListsMadt byte rsdp header →
      MadtAccepted byte header → ∀ fuel, acpiGetMadtInfo (.all byte) fuel rsdp ≠ .error .undefined := by
  intro hall
  have hrun := hall seventeenIoapics 0x10 0x80 seventeenIoapics_lists seventeenIoapics_accepted 17
  refine hrun ?_
  decide +kernel

/-! ## Pointers -/

def MADT_ENT_IOAPIC_NMI_SRC : Nat := 3

/-- `sizeof` of what the pointers in the array for type `t` point to. -/
def pointeeSize (t : Nat) : Nat :=
  if t = MADT_ENT_LAPIC then 6
  else if t = MADT_ENT_IOAPIC then 10
  else if t = MADT_ENT_IOAPIC_INT_OVER then 8
  else SIZEOF_MADT_IOAPIC_NMI_SRC

/-- Offsets and sizes of `Flags` and `GlobalSysInt`, what `ReadSystemConfig` reads of an
`MADT_IOAPIC_NMI_Src_t`. -/
def nmiFieldReads : List (Nat × Nat) := [(2, 1), (3, 4)]

/-- The records with their addresses, the first one at `ptr`. -/
def placed : Nat → List MadtRecord → List (Nat × MadtRecord)
  | _, [] => []
  | ptr, r :: records => (ptr, r) :: placed (ptr + r.bytes.length) records

/-- The pointers to the bodies of the records listed for type `t`. -/
def bodyPointers (t : Nat) (placedRecords : List (Nat × MadtRecord)) : List Nat :=
  (placedRecords.filter fun q => q.2.listed t).map fun q => u32 (q.1 + SIZEOF_MADT_VAR_RECORD)

/-- The pointers denote the records they were stored for. -/
structure PointersOwn (placedRecords : List (Nat × MadtRecord)) (info : MadtInfo) : Prop where
  /-- The entries in use point to the bodies of the listed records, in order. -/
  entries : ∀ t table, info.tableOf t = some table → table.entries = bodyPointers t placedRecords
  /-- Whatever was stored in an array points to the body of a record of its type. -/
  stored : ∀ t table, info.tableOf t = some table → ∀ p ∈ table.slots, p ≠ 0 →
    ∃ q ∈ placedRecords, q.2.entryType.toNat = t ∧ p = u32 (q.1 + SIZEOF_MADT_VAR_RECORD)
  /-- The structure it is used as fits into the record. -/
  fits : ∀ t table, info.tableOf t = some table → ∀ q ∈ placedRecords, q.2.entryType.toNat = t →
    SIZEOF_MADT_VAR_RECORD + pointeeSize t ≤ q.2.bytes.length
  /-- The NMI pass reads inside an NMI source record. -/
  nmi : ∀ p ∈ info.nmiSource.entries.take MAX_NMI_NUM, ∀ f ∈ nmiFieldReads, ∃ q ∈ placedRecords,
    (q.2.entryType.toNat = MADT_ENT_LAPIC_NMI_SRC ∨ q.2.entryType.toNat = MADT_ENT_IOAPIC_NMI_SRC) ∧
      q.1 ≤ p + f.1 ∧ p + f.1 + f.2 ≤ q.1 + q.2.bytes.length

/-- The arrays after the records `done`. -/
structure Points (done : List (Nat × MadtRecord)) (info : MadtInfo) : Prop where
  entries : ∀ t table, info.tableOf t = some table →
    table.entries = (done.filter fun q => q.2.listed t).map fun q => u32 (q.1 + storedOffset t)
  stored : ∀ t table, info.tableOf t = some table → ∀ p ∈ table.slots, p ≠ 0 →
    ∃ q ∈ done, q.2.entryType.toNat = t ∧ p = u32 (q.1 + storedOffset t)

theorem points_start (lapicAddr : Nat) : Points [] (.start lapicAddr) where
  entries := by
    intro t table h
    obtain ⟨c, rfl⟩ := cleared_of_start h
    rfl
  stored := by
    intro t table h p hp hne
    obtain ⟨c, rfl⟩ := cleared_of_start h
    exact absurd (List.eq_of_mem_replicate hp) hne

variable {done : List (Nat × MadtRecord)} {r : MadtRecord} {records : List MadtRecord}

/-- One more record. -/
theorem Points.addRecord (h : Points done info) (hstored : StoredAt byte ptr r.bytes)
    (hroom : info.HasRoom (entryType byte ptr)) :
    Points (done ++ [(ptr, r)]) (info.addRecord byte ptr) := by
  refine ⟨?_, ?_⟩
  · intro t table' ht'
    obtain ⟨table, ht⟩ := exists_tableOf_of_addRecord ht'
    rw [List.filter_append, List.map_append, ← h.entries t table ht, List.filter_singleton,
      ← takesSlot_of_stored hstored t, entries_addRecord hroom ht ht']
    cases takesSlot byte t ptr with
    | true => rfl
    | false => rfl
  · intro t table' ht' p hp hne
    obtain ⟨table, ht⟩ := exists_tableOf_of_addRecord ht'
    by_cases htype : entryType byte ptr = t
    · have hslots : table'.slots = table.slots.set table.num (u32 (ptr + storedOffset t)) := by
        rw [tableOf_addRecord_pointer ht htype] at ht'
        rw [← Option.some.inj ht']
        split <;> rfl
      rw [hslots] at hp
      rcases List.mem_or_eq_of_mem_set hp with hp | rfl
      · obtain ⟨q, hq, hq'⟩ := h.stored t table ht p hp hne
        exact ⟨q, List.mem_append_left _ hq, hq'⟩
      · exact ⟨(ptr, r), List.mem_append_right _ (List.mem_singleton.mpr rfl),
          (entryType_of_stored hstored).symm.trans htype, rfl⟩
    · rw [tableOf_addRecord_of_ne htype] at ht'
      obtain ⟨q, hq, hq'⟩ := h.stored t table' ht' p hp hne
      exact ⟨q, List.mem_append_left _ hq, hq'⟩

/-- All of them; there is room as the arrays have space for as many of each type. -/
theorem Points.addRecords {headerAddr : Nat} {decoded : List MadtRecord} (h : Points done info)
    (hdecodes : Decodes byte headerAddr decoded info)
    (hstored : StoredAt byte ptr (encodeRecords records)) (hfits : FitsArrays (decoded ++ records)) :
    Points (done ++ placed ptr records) (addRecords byte ptr records info) := by
  induction records generalizing done decoded info ptr with
  | nil => rwa [placed, List.append_nil]
  | cons r records ih =>
    obtain ⟨hfirst, hrest⟩ := storedAt_append.mp hstored
    have hroom : info.HasRoom (entryType byte ptr) := by
      rw [entryType_of_stored hfirst]
      exact hdecodes.hasRoom hfits
    have hfits' : FitsArrays (decoded ++ [r] ++ records) := by
      rwa [List.append_assoc]
    have hpoints := ih (h.addRecord hfirst hroom) (hdecodes.addRecord hfirst hroom) hrest hfits'
    rw [List.append_assoc] at hpoints
    exact hpoints

/-- The result does not depend on the fuel. -/
theorem recordLoop_unique {m : Mem} {fuel' : Nat} {r r' : MadtInfo}
    (h : recordLoop m ptrEnd fuel ptr info = .ok r) (h' : recordLoop m ptrEnd fuel' ptr info = .ok r') :
    r = r' := by
  obtain ⟨n, -, hturns, hend, rfl⟩ := recordLoop_eq_ok_iff.mp h
  obtain ⟨n', -, hturns', hend', rfl⟩ := recordLoop_eq_ok_iff.mp h'
  have hle : n ≤ n' := Nat.le_of_not_lt fun hlt => hend' (hturns n' hlt).1
  have hge : n' ≤ n := Nat.le_of_not_lt fun hlt => hend (hturns' n hlt).1
  rw [Nat.le_antisymm hle hge]

theorem mem_placed {q : Nat × MadtRecord} (h : q ∈ placed ptr records) : q.2 ∈ records := by
  induction records generalizing ptr with
  | nil => exact nomatch h
  | cons r records ih =>
    rcases List.mem_cons.mp h with rfl | h
    · exact List.mem_cons_self
    · exact List.mem_cons_of_mem r (ih h)

theorem exists_placed (ptr : Nat) {r : MadtRecord} (h : r ∈ records) : ∃ q ∈ placed ptr records, q.2 = r := by
  induction records generalizing ptr with
  | nil => exact nomatch h
  | cons r' records ih =>
    rcases List.mem_cons.mp h with rfl | h
    · exact ⟨(ptr, r), List.mem_cons_self, rfl⟩
    · obtain ⟨q, hq, hr⟩ := ih (ptr + r'.bytes.length) h
      exact ⟨q, List.mem_cons_of_mem _ hq, hr⟩

/-- A record of an array other than that of the NMIs is as long as its structure. -/
theorem fits_of_ne {t : Nat} {table : PtrTable} (h : info.tableOf t = some table)
    (hne : t ≠ MADT_ENT_LAPIC_NMI_SRC) {r : MadtRecord} (htype : r.entryType.toNat = t) :
    SIZEOF_MADT_VAR_RECORD + pointeeSize t ≤ r.bytes.length := by
  have hsize : bodySize t = some (pointeeSize t) := by
    unfold MadtInfo.tableOf at h
    unfold bodySize pointeeSize
    grind
  have hlen : r.body.length = pointeeSize t := r.wellFormed _ (htype ▸ hsize)
  rw [r.length_bytes, hlen, Nat.add_comm]
  exact Nat.le_refl _

/-- Without an NMI source record of the parser's kind the stored pointers are the right ones. -/
theorem Points.own {placedRecords : List (Nat × MadtRecord)} (h : Points placedRecords info)
    (hnone : ∀ q ∈ placedRecords, q.2.entryType.toNat ≠ MADT_ENT_LAPIC_NMI_SRC) :
    PointersOwn placedRecords info := by
  have hoffset {t : Nat} (ht : t ≠ MADT_ENT_LAPIC_NMI_SRC) : storedOffset t = SIZEOF_MADT_VAR_RECORD :=
    if_neg ht
  have hlisted (q : Nat × MadtRecord) (hq : q ∈ placedRecords) :
      ¬ q.2.listed MADT_ENT_LAPIC_NMI_SRC = true := fun hl =>
    hnone q hq (beq_iff_eq.mp (Bool.and_eq_true_iff.mp hl).1)
  have hentries (t : Nat) (table : PtrTable) (ht : info.tableOf t = some table) :
      table.entries = bodyPointers t placedRecords := by
    rw [h.entries t table ht, bodyPointers]
    by_cases hnmi : t = MADT_ENT_LAPIC_NMI_SRC
    · rw [hnmi, List.filter_eq_nil_iff.mpr hlisted]
      rfl
    · rw [hoffset hnmi]
  refine ⟨hentries, ?_, ?_, ?_⟩
  · intro t table ht p hp hne
    obtain ⟨q, hq, htype, rfl⟩ := h.stored t table ht p hp hne
    exact ⟨q, hq, htype, by rw [hoffset (htype ▸ hnone q hq)]⟩
  · intro t table ht q hq htype
    exact fits_of_ne ht (htype ▸ hnone q hq) htype
  · intro p hp
    have hempty := hentries MADT_ENT_LAPIC_NMI_SRC info.nmiSource rfl
    rw [bodyPointers, List.filter_eq_nil_iff.mpr hlisted] at hempty
    rw [hempty] at hp
    exact nomatch hp

/-- With one, the pointer for it leads five bytes too far. -/
theorem Points.not_own {placedRecords : List (Nat × MadtRecord)} (h : Points placedRecords info)
    {q : Nat × MadtRecord} (hq : q ∈ placedRecords)
    (htype : q.2.entryType.toNat = MADT_ENT_LAPIC_NMI_SRC) : ¬ PointersOwn placedRecords info := by
  intro hown
  have hstored := h.entries MADT_ENT_LAPIC_NMI_SRC info.nmiSource rfl
  have hbody := hown.entries MADT_ENT_LAPIC_NMI_SRC info.nmiSource rfl
  have hlisted : q ∈ placedRecords.filter fun q => q.2.listed MADT_ENT_LAPIC_NMI_SRC := by
    refine List.mem_filter.mpr ⟨hq, ?_⟩
    rw [MadtRecord.listed, htype]
    rfl
  have heq := List.map_inj_left.mp (hstored.symm.trans hbody) q hlisted
  unfold u32 storedOffset SIZEOF_MADT_VAR_RECORD at heq
  rw [if_pos rfl, SIZEOF_MADT_IOAPIC_NMI_SRC] at heq
  omega

/-- The pointers after a run over the records. -/
theorem points_of_holds {records : List MadtRecord} (hrecords : HoldsRecords byte header records)
    (hfits : FitsArrays records) (lapicAddr : Nat) :
    Points (placed (firstRecord header) records)
      (addRecords byte (firstRecord header) records (.start lapicAddr)) := by
  have hfirst : firstRecord header = header + SIZEOF_ACPI_HEADER + SIZEOF_MADT_LAPIC_HEADER := by
    have hlength := hrecords.length
    have hlt := hrecords.fits
    exact u32_of_lt (by omega)
  exact (points_start lapicAddr).addRecords (decodes_start byte lapicAddr)
    (hfirst ▸ hrecords.stored) hfits

theorem not_own_of_nmi {records : List MadtRecord} (hlists : ListsMadt byte rsdp header)
    (haccepted : MadtAccepted byte header) (hrecords : HoldsRecords byte header records)
    (hfits : FitsArrays records) {r : MadtRecord} (hr : r ∈ records)
    (htype : r.entryType.toNat = MADT_ENT_LAPIC_NMI_SRC) :
    ¬ ∃ fuel info, acpiGetMadtInfo (.all byte) fuel rsdp = .ok (true, info) ∧
      PointersOwn (placed (firstRecord header) records) info := by
  rintro ⟨fuel, info, hrun, hown⟩
  obtain ⟨hget, -⟩ := hrecords.getMadtInfo hlists haccepted hfits
  rw [hlists.getMadtInfo haccepted, map_eq_ok] at hget hrun
  obtain ⟨info₁, hloop₁, hinfo₁⟩ := hget
  obtain ⟨info₂, hloop₂, hinfo₂⟩ := hrun
  have hsame := recordLoop_unique hloop₁ hloop₂
  obtain ⟨q, hq, rfl⟩ := exists_placed (firstRecord header) hr
  have hnot := (points_of_holds hrecords hfits
    (leValue byte (u32 (header + SIZEOF_ACPI_HEADER)) 4)).not_own hq htype
  rw [← (Prod.mk.inj hinfo₁).2, hsame, (Prod.mk.inj hinfo₂).2] at hnot
  exact hnot hown

/-- The pointers are right for a MADT of well-formed records iff it has no record of the type that the
parser takes for an NMI source. -/
theorem acpiGetMadtInfo_pointers_iff (byte : Nat → UInt8) (rsdp header : Nat)
    (records : List MadtRecord) (hlists : ListsMadt byte rsdp header)
    (haccepted : MadtAccepted byte header) (hrecords : HoldsRecords byte header records)
    (hfits : FitsArrays records) :
    (∃ fuel info, acpiGetMadtInfo (.all byte) fuel rsdp = .ok (true, info) ∧
        PointersOwn (placed (firstRecord header) records) info) ↔
      ∀ r ∈ records, r.entryType.toNat ≠ MADT_ENT_LAPIC_NMI_SRC := by
  constructor
  · intro h r hr htype
    exact not_own_of_nmi hlists haccepted hrecords hfits hr htype h
  · intro hnone
    obtain ⟨hget, -⟩ := hrecords.getMadtInfo hlists haccepted hfits
    exact ⟨_, _, hget, (points_of_holds hrecords hfits _).own fun q hq => hnone q.2 (mem_placed hq)⟩

theorem acpiGetMadtInfo_pointers_three :
    ∃ fuel info, acpiGetMadtInfo (.all threeRecordsMadt) fuel 0x10 = .ok (true, info) ∧
      PointersOwn (placed 0xAC threeRecords) info :=
  (acpiGetMadtInfo_pointers_iff threeRecordsMadt 0x10 0x80 threeRecords threeRecordsMadt_lists
    threeRecordsMadt_accepted threeRecordsMadt_holds (fitsArrays_of_length_le (by decide))).mpr
    (by decide)

/-- The NMI input of all processors. -/
def nmiRecords : List MadtRecord := [⟨4, [0xFF, 0, 0, 1], by decide, nofun⟩]

/-- An RSDP at 0x10, an RSDT at 0x40 and a MADT at 0x80 with that record. -/
def nmiMadt (a : Nat) : UInt8 :=
  if 0xAC ≤ a then (encodeRecords nmiRecords).getD (a - 0xAC) 0
  else (List.lookup a [(0x20, 0x40), (0x44, 40), (0x64, 0x80),
    (0x80, 0x41), (0x81, 0x50), (0x82, 0x49), (0x83, 0x43), (0x84, 50), (0x89, 167)]).getD 0

/-- It is looked for behind its record. -/
theorem acpiGetMadtInfo_nmi :
    ¬ ∀ (byte : Nat → UInt8) (rsdp header : Nat) (records : List MadtRecord),
      ListsMadt byte rsdp header → MadtAccepted byte header → HoldsRecords byte header records →
      FitsArrays records → ∃ fuel info, acpiGetMadtInfo (.all byte) fuel rsdp = .ok (true, info) ∧
        PointersOwn (placed (firstRecord header) records) info := by
  intro hall
  have hlists : ListsMadt nmiMadt 0x10 0x80 :=
    ⟨by decide, by decide, by decide, 0, by decide, by decide, nofun⟩
  have haccepted : MadtAccepted nmiMadt 0x80 := ⟨by decide, by decide +kernel⟩
  have hholds : HoldsRecords nmiMadt 0x80 nmiRecords :=
    ⟨by decide, by unfold StoredAt; decide, by decide⟩
  have hfits : FitsArrays nmiRecords := fitsArrays_of_length_le (by decide)
  exact not_own_of_nmi hlists haccepted hholds hfits List.mem_cons_self rfl
    (hall nmiMadt 0x10 0x80 nmiRecords hlists haccepted hholds hfits)

end TalOS
