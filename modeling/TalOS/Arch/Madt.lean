-- SUMMARY: Encoding a list of records as a MADT: `acpi_get_MADT_info` gives the records back.
import TalOS.Arch.Acpi

/-!
# Decoding a MADT

A MADT in memory is its header followed by the bytes of a list of records. The
parser's output is compared with the list: the bodies of the processor, I/O APIC
and interrupt override records, in order, and the last LAPIC address override.
-/

namespace TalOS

open MachineInt Access

/-! ## Records -/

/-- The size of the bodies that the parser looks into. -/
def bodySize (t : Nat) : Option Nat :=
  if t = MADT_ENT_LAPIC then some 6
  else if t = MADT_ENT_IOAPIC then some 10
  else if t = MADT_ENT_IOAPIC_INT_OVER then some 8
  else if t = MADT_ENT_LAPIC_ADDR_OVER then some 10
  else none

/-- A well-formed record: `Length` is the record's size. -/
structure MadtRecord where
  entryType : UInt8
  body : List UInt8
  fits : body.length + 2 < 256
  wellFormed : ∀ n, bodySize entryType.toNat = some n → body.length = n

namespace MadtRecord

/-- The record in memory. -/
def bytes (r : MadtRecord) : List UInt8 := r.entryType :: UInt8.ofNat (r.body.length + 2) :: r.body

/-- `Flags` of a processor record have the enabled or online-capable bit. -/
def usable (r : MadtRecord) : Bool :=
  leBytes ((r.body.drop 2).take 4) &&& (MADT_PROC_ENABLED ||| MADT_ONLINE_CAPABLE) != 0

/-- The record is one of those that the parser lists for type `t`. -/
def listed (t : Nat) (r : MadtRecord) : Bool :=
  r.entryType.toNat == t && (t != MADT_ENT_LAPIC || r.usable)

/-- The low 32 bits of the address in a LAPIC address override. -/
def lapicAddr (r : MadtRecord) : Nat := u32 (leBytes ((r.body.drop 2).take 8))

theorem length_bytes (r : MadtRecord) : r.bytes.length = r.body.length + 2 := rfl

end MadtRecord

/-- The bodies of the records listed for type `t`. -/
def listedBodies (t : Nat) (records : List MadtRecord) : List (List UInt8) :=
  (records.filter (MadtRecord.listed t)).map MadtRecord.body

/-- The address in the last LAPIC address override, else the header's. -/
def lastLapicAddr (headerAddr : Nat) (records : List MadtRecord) : Nat :=
  records.foldl
    (fun addr r => if r.entryType.toNat = MADT_ENT_LAPIC_ADDR_OVER then r.lapicAddr else addr) headerAddr

/-- The bytes of all the records. -/
def encodeRecords (records : List MadtRecord) : List UInt8 := records.flatMap MadtRecord.bytes

/-- Memory holds the records behind the MADT's header, and the header's `Length` says so. -/
structure HoldsRecords (byte : Nat → UInt8) (header : Nat) (records : List MadtRecord) : Prop where
  length : madtLength byte header =
    SIZEOF_ACPI_HEADER + SIZEOF_MADT_LAPIC_HEADER + (encodeRecords records).length
  stored : StoredAt byte (header + SIZEOF_ACPI_HEADER + SIZEOF_MADT_LAPIC_HEADER) (encodeRecords records)
  fits : header + madtLength byte header < 2 ^ 32

/-- There are at most as many records of each type as its array has slots. -/
def FitsArrays (records : List MadtRecord) : Prop :=
  ∀ t c, capacity t = some c → records.countP (fun r => r.entryType.toNat == t) ≤ c

/-! ## A record in memory -/

variable {byte : Nat → UInt8} {ptr header headerAddr : Nat} {r : MadtRecord} {info : MadtInfo}
  {done records : List MadtRecord}

theorem storedAt_bytes : StoredAt byte ptr r.bytes ↔
    StoredAt byte ptr [r.entryType] ∧ StoredAt byte (ptr + 1) [UInt8.ofNat (r.body.length + 2)] ∧
      StoredAt byte (ptr + 2) r.body := by
  have hsplit : r.bytes = [r.entryType] ++ ([UInt8.ofNat (r.body.length + 2)] ++ r.body) := rfl
  rw [hsplit, storedAt_append, storedAt_append]
  rfl

theorem entryType_of_stored (h : StoredAt byte ptr r.bytes) : entryType byte ptr = r.entryType.toNat :=
  leValue_of_storedAt (storedAt_bytes.mp h).1 (Nat.le_refl 1)

theorem nextRecord_of_stored (h : StoredAt byte ptr r.bytes) (hlt : ptr + r.bytes.length < 2 ^ 32) :
    nextRecord byte ptr = ptr + r.bytes.length := by
  have hlength : recordLength byte ptr = (UInt8.ofNat (r.body.length + 2)).toNat :=
    leValue_of_storedAt (storedAt_bytes.mp h).2.1 (Nat.le_refl 1)
  have hbyte : (UInt8.ofNat (r.body.length + 2)).toNat = r.body.length + 2 := by
    rw [UInt8.toNat_ofNat']
    exact Nat.mod_eq_of_lt r.fits
  rw [nextRecord, hlength, hbyte, ← r.length_bytes, u32_of_lt hlt]

/-- What the parser reads from offset 4 on is in the body from offset 2 on. -/
theorem leValue_body_of_stored {n : Nat} (h : StoredAt byte ptr r.bytes) (hn : n + 2 ≤ r.body.length) :
    leValue byte (ptr + 4) n = leBytes ((r.body.drop 2).take n) := by
  have hsplit : StoredAt byte (ptr + 2) (r.body.take 2 ++ r.body.drop 2) := by
    rw [List.take_append_drop]
    exact (storedAt_bytes.mp h).2.2
  have hdrop := (storedAt_append.mp hsplit).2
  rw [List.length_take, Nat.min_eq_left (by omega)] at hdrop
  exact leValue_of_storedAt hdrop (by rw [List.length_drop]; omega)

theorem takesSlot_of_stored (h : StoredAt byte ptr r.bytes) (t : Nat) :
    takesSlot byte t ptr = r.listed t := by
  rw [takesSlot, MadtRecord.listed, entryType_of_stored h]
  by_cases htype : r.entryType.toNat = t
  · by_cases ht : t = MADT_ENT_LAPIC
    · have hsize : r.body.length = 6 := r.wellFormed 6 (by rw [htype, ht]; rfl)
      rw [lapicUsable, leValue_body_of_stored h (by rw [hsize])]
      rfl
    · rw [bne_iff_ne.mpr ht, Bool.true_or, Bool.true_or]
  · rw [beq_eq_false_iff_ne.mpr htype, Bool.false_and, Bool.false_and]

/-- The pointer that the parser stores leads to the body. -/
theorem bytesAt_body (h : StoredAt byte ptr r.bytes) :
    bytesAt byte (u32 (ptr + SIZEOF_MADT_VAR_RECORD)) r.body.length = r.body := by
  refine Eq.trans ?_ (storedAt_bytes.mp h).2.2
  refine List.map_congr_left fun i _ => ?_
  rw [u32_add_mod]
  rfl

/-! ## The arrays -/

theorem PtrTable.entries_put (t : PtrTable) (p : Nat) : (t.put p).entries = t.entries := by
  rw [entries, entries, put, List.take_set_of_le (Nat.le_refl _)]

theorem PtrTable.entries_advance {t : PtrTable} (h : t.num < t.slots.length) (p : Nat) :
    (t.put p).advance.entries = t.entries ++ [p] := by
  have hlt : t.num < (t.slots.set t.num p).length := by rwa [List.length_set]
  show (t.slots.set t.num p).take (t.num + 1) = t.slots.take t.num ++ [p]
  rw [List.take_succ_eq_append_getElem hlt, List.take_set_of_le (Nat.le_refl _), List.getElem_set_self]

/-- What is added to the address of a record of type `t`. -/
def storedOffset (t : Nat) : Nat :=
  if t = MADT_ENT_LAPIC_NMI_SRC then SIZEOF_MADT_IOAPIC_NMI_SRC else SIZEOF_MADT_VAR_RECORD

/-- The array for the type of a record gets the pointer in its next slot, and keeps it if the record
is listed. -/
theorem tableOf_addRecord_pointer {t : Nat} {table : PtrTable} (h : info.tableOf t = some table)
    (htype : entryType byte ptr = t) :
    (info.addRecord byte ptr).tableOf t =
      some (if takesSlot byte t ptr then (table.put (u32 (ptr + storedOffset t))).advance
        else table.put (u32 (ptr + storedOffset t))) := by
  unfold MadtInfo.addRecord MadtInfo.tableOf takesSlot storedOffset at *
  grind [MADT_ENT_LAPIC, MADT_ENT_IOAPIC, MADT_ENT_IOAPIC_INT_OVER, MADT_ENT_LAPIC_ADDR_OVER,
    MADT_ENT_LAPIC_NMI_SRC]

theorem storedOffset_of_bodySize {t n : Nat} (hsize : bodySize t = some n) :
    storedOffset t = SIZEOF_MADT_VAR_RECORD := by
  refine if_neg ?_
  rintro rfl
  cases hsize

theorem exists_tableOf_of_addRecord {t : Nat} {table' : PtrTable}
    (h : (info.addRecord byte ptr).tableOf t = some table') : ∃ table, info.tableOf t = some table := by
  have hsome := tableOf_isSome (info.addRecord byte ptr) info t
  rw [h] at hsome
  exact Option.isSome_iff_exists.mp hsome.symm

/-- What a record adds to the entries in use. -/
theorem entries_addRecord {t : Nat} {table table' : PtrTable} (hroom : info.HasRoom (entryType byte ptr))
    (h : info.tableOf t = some table) (h' : (info.addRecord byte ptr).tableOf t = some table') :
    table'.entries =
      table.entries ++ if takesSlot byte t ptr then [u32 (ptr + storedOffset t)] else [] := by
  by_cases htype : entryType byte ptr = t
  · have hspace : table.num < table.slots.length := hroom table (htype.symm ▸ h)
    rw [tableOf_addRecord_pointer h htype] at h'
    obtain rfl := Option.some.inj h'
    cases takesSlot byte t ptr with
    | true => exact PtrTable.entries_advance hspace _
    | false => exact (PtrTable.entries_put table _).trans (List.append_nil _).symm
  · have hnot : takesSlot byte t ptr = false := by
      rw [takesSlot, beq_eq_false_iff_ne.mpr htype, Bool.false_and]
    rw [tableOf_addRecord_of_ne htype, h] at h'
    obtain rfl := Option.some.inj h'
    rw [hnot]
    exact (List.append_nil _).symm

/-- Before the first record the arrays are empty. -/
theorem cleared_of_start {t lapicAddr : Nat} {table : PtrTable}
    (h : (MadtInfo.start lapicAddr).tableOf t = some table) : ∃ c, table = .cleared c := by
  unfold MadtInfo.tableOf at h
  grind [MadtInfo.start, MadtInfo.cleared]

theorem lapicPtr_addRecord (info : MadtInfo) (byte : Nat → UInt8) (ptr : Nat) :
    (info.addRecord byte ptr).lapicPtr =
      if entryType byte ptr = MADT_ENT_LAPIC_ADDR_OVER then u32 (leValue byte (ptr + 4) 8)
      else info.lapicPtr := by
  unfold MadtInfo.addRecord
  grind [MADT_ENT_LAPIC, MADT_ENT_IOAPIC, MADT_ENT_IOAPIC_INT_OVER, MADT_ENT_LAPIC_ADDR_OVER,
    MADT_ENT_LAPIC_NMI_SRC]

/-! ## The output after some records -/

/-- The output when the records `done` have been parsed. -/
structure Decodes (byte : Nat → UInt8) (headerAddr : Nat) (done : List MadtRecord) (info : MadtInfo) :
    Prop where
  capacity_eq : ∀ t table, info.tableOf t = some table → capacity t = some table.slots.length
  num_eq : ∀ t table, info.tableOf t = some table → table.num = done.countP (MadtRecord.listed t)
  bodies : ∀ t n table, info.tableOf t = some table → bodySize t = some n →
    table.entries.map (bytesAt byte · n) = listedBodies t done
  addr : info.lapicPtr = lastLapicAddr headerAddr done

theorem decodes_start (byte : Nat → UInt8) (headerAddr : Nat) :
    Decodes byte headerAddr [] (.start headerAddr) where
  capacity_eq := by
    intro t table h
    exact congrArg (Option.map fun table => table.slots.length) h
  num_eq := by
    intro t table h
    obtain ⟨c, rfl⟩ := cleared_of_start h
    rfl
  bodies := by
    intro t n table h _
    obtain ⟨c, rfl⟩ := cleared_of_start h
    rfl
  addr := rfl

theorem listedBodies_append (t : Nat) (done records : List MadtRecord) :
    listedBodies t (done ++ records) = listedBodies t done ++ listedBodies t records := by
  rw [listedBodies, List.filter_append, List.map_append]
  rfl

/-- Parsing one more record. -/
theorem Decodes.addRecord (h : Decodes byte headerAddr done info) (hstored : StoredAt byte ptr r.bytes)
    (hroom : info.HasRoom (entryType byte ptr)) :
    Decodes byte headerAddr (done ++ [r]) (info.addRecord byte ptr) := by
  refine ⟨?_, ?_, ?_, ?_⟩
  · intro t table' ht'
    obtain ⟨table, ht⟩ := exists_tableOf_of_addRecord ht'
    obtain ⟨table₁, ht₁, hlen, -⟩ := tableOf_addRecord byte ptr ht
    obtain rfl := Option.some.inj (ht₁.symm.trans ht')
    rw [hlen]
    exact h.capacity_eq t table ht
  · intro t table' ht'
    obtain ⟨table, ht⟩ := exists_tableOf_of_addRecord ht'
    obtain ⟨table₁, ht₁, -, hnum⟩ := tableOf_addRecord byte ptr ht
    obtain rfl := Option.some.inj (ht₁.symm.trans ht')
    rw [hnum, h.num_eq t table ht, List.countP_append, List.countP_singleton, takesSlot_of_stored hstored]
  · intro t n table' ht' hsize
    obtain ⟨table, ht⟩ := exists_tableOf_of_addRecord ht'
    rw [listedBodies_append, ← h.bodies t n table ht hsize, entries_addRecord hroom ht ht',
      List.map_append, takesSlot_of_stored hstored, storedOffset_of_bodySize hsize, listedBodies,
      List.filter_singleton]
    cases hlisted : r.listed t with
    | false => rfl
    | true =>
      -- A record that is listed is of type `t`, so its body has the size of the structure.
      have htype : r.entryType.toNat = t := eq_of_beq (Bool.and_eq_true_iff.mp hlisted).1
      have hlen : r.body.length = n := r.wellFormed n (htype.symm ▸ hsize)
      simp only [if_true, List.map_cons, List.map_nil, cond_true, ← hlen, bytesAt_body hstored]
  · rw [lapicPtr_addRecord, lastLapicAddr, List.foldl_append, entryType_of_stored hstored]
    show _ = if _ then _ else lastLapicAddr headerAddr done
    split
    · next htype =>
      have hlen : r.body.length = 10 := r.wellFormed 10 (by rw [htype]; rfl)
      rw [leValue_body_of_stored hstored (by rw [hlen])]
      rfl
    · exact h.addr

/-- There is room for the next record. -/
theorem Decodes.hasRoom (h : Decodes byte headerAddr done info)
    (hfits : FitsArrays (done ++ r :: records)) : info.HasRoom r.entryType.toNat := by
  intro table ht
  have hle := hfits _ _ (h.capacity_eq _ table ht)
  have hlisted : done.countP (MadtRecord.listed r.entryType.toNat) ≤
      done.countP (fun r' => r'.entryType.toNat == r.entryType.toNat) :=
    List.countP_mono_left fun r' _ hl => (Bool.and_eq_true_iff.mp hl).1
  rw [h.num_eq _ table ht]
  rw [List.countP_append, List.countP_cons_of_pos (by simp)] at hle
  omega

/-- The output after the records from `ptr` on. -/
def addRecords (byte : Nat → UInt8) : Nat → List MadtRecord → MadtInfo → MadtInfo
  | _, [], info => info
  | ptr, r :: records, info => addRecords byte (ptr + r.bytes.length) records (info.addRecord byte ptr)

/-- The loop over the bytes of a list of records. -/
theorem recordLoop_records (h : Decodes byte headerAddr done info)
    (hstored : StoredAt byte ptr (encodeRecords records)) (hfits : FitsArrays (done ++ records))
    (hlt : ptr + (encodeRecords records).length < 2 ^ 32) :
    recordLoop (.all byte) (ptr + (encodeRecords records).length) (records.length + 1) ptr info =
        .ok (addRecords byte ptr records info) ∧
      Decodes byte headerAddr (done ++ records) (addRecords byte ptr records info) := by
  induction records generalizing done info ptr with
  | nil => exact ⟨if_neg (Nat.lt_irrefl ptr), by rwa [List.append_nil]⟩
  | cons r records ih =>
    have hsplit : encodeRecords (r :: records) = r.bytes ++ encodeRecords records := rfl
    rw [hsplit, storedAt_append] at hstored
    rw [hsplit, List.length_append, ← Nat.add_assoc] at hlt ⊢
    have hroom : info.HasRoom (entryType byte ptr) := by
      rw [entryType_of_stored hstored.1]
      exact h.hasRoom hfits
    have hnext := nextRecord_of_stored hstored.1 (Nat.lt_of_le_of_lt (Nat.le_add_right _ _) hlt)
    have hmore : ptr < ptr + r.bytes.length + (encodeRecords records).length := by
      rw [r.length_bytes]
      omega
    have hfits' : FitsArrays (done ++ [r] ++ records) := by
      rwa [List.append_assoc]
    obtain ⟨hloop, hdecodes⟩ := ih (h.addRecord hstored.1 hroom) hstored.2 hfits' hlt
    rw [List.append_assoc] at hdecodes
    refine ⟨?_, hdecodes⟩
    refine (recordLoop_of_lt hmore).mpr ⟨⟨hmore, fun f _ => readable_all byte _ _, hroom⟩, ?_⟩
    show recordLoop _ _ _ (nextRecord byte ptr) _ = _
    rw [hnext]
    exact hloop

/-- The run over a MADT that holds the records. -/
theorem HoldsRecords.getMadtInfo {rsdp : Nat} (h : HoldsRecords byte header records)
    (hlists : ListsMadt byte rsdp header) (haccepted : MadtAccepted byte header)
    (hfits : FitsArrays records) :
    acpiGetMadtInfo (.all byte) (records.length + 1) rsdp =
        .ok (true, addRecords byte (firstRecord header) records
          (.start (leValue byte (u32 (header + SIZEOF_ACPI_HEADER)) 4))) ∧
      Decodes byte (leValue byte (u32 (header + SIZEOF_ACPI_HEADER)) 4) records
        (addRecords byte (firstRecord header) records
          (.start (leValue byte (u32 (header + SIZEOF_ACPI_HEADER)) 4))) := by
  have hlength := h.length
  have hlt := h.fits
  have hfirst : firstRecord header = header + SIZEOF_ACPI_HEADER + SIZEOF_MADT_LAPIC_HEADER :=
    u32_of_lt (by omega)
  have hend : madtEnd byte header = firstRecord header + (encodeRecords records).length := by
    rw [madtEnd, u32_of_lt hlt, hlength, hfirst]
    omega
  have hstored : StoredAt byte (firstRecord header) (encodeRecords records) := by
    rw [hfirst]
    exact h.stored
  obtain ⟨hloop, hdecodes⟩ := recordLoop_records
    (decodes_start byte (leValue byte (u32 (header + SIZEOF_ACPI_HEADER)) 4)) hstored hfits (by omega)
  refine ⟨?_, hdecodes⟩
  rw [hlists.getMadtInfo haccepted, hend, hloop]
  rfl

/-! ## The whole table -/

/-- Decoding a MADT returns what was encoded: the arrays hold the bodies of the processor records that
are enabled or can be, of the I/O APIC records and of the interrupt overrides, in order, and
`LAPIC_ptr` is the address in the last override of it, or the header's. -/
theorem acpiGetMadtInfo_decodes (byte : Nat → UInt8) (rsdp header : Nat) (records : List MadtRecord)
    (hlists : ListsMadt byte rsdp header) (haccepted : MadtAccepted byte header)
    (hrecords : HoldsRecords byte header records) (hfits : FitsArrays records) :
    ∃ fuel info, acpiGetMadtInfo (.all byte) fuel rsdp = .ok (true, info) ∧
      info.lapics.entries.map (bytesAt byte · 6) =
        ((records.filter fun r => r.entryType.toNat == MADT_ENT_LAPIC && r.usable).map (·.body)) ∧
      info.lapics.num = info.lapics.entries.length ∧
      info.ioapics.entries.map (bytesAt byte · 10) =
        ((records.filter fun r => r.entryType.toNat == MADT_ENT_IOAPIC).map (·.body)) ∧
      info.intSrcOverride.entries.map (bytesAt byte · 8) =
        ((records.filter fun r => r.entryType.toNat == MADT_ENT_IOAPIC_INT_OVER).map (·.body)) ∧
      info.lapicPtr = lastLapicAddr (leValue byte (u32 (header + SIZEOF_ACPI_HEADER)) 4) records := by
  obtain ⟨hget, hdecodes⟩ := hrecords.getMadtInfo hlists haccepted hfits
  generalize addRecords byte _ records _ = info at hget hdecodes
  have hlapics : info.tableOf MADT_ENT_LAPIC = some info.lapics := rfl
  have hbodies := hdecodes.bodies MADT_ENT_LAPIC 6 info.lapics hlapics rfl
  refine ⟨records.length + 1, info, hget, hbodies, ?_, ?_, ?_, hdecodes.addr⟩
  · have hlen := congrArg List.length hbodies
    rw [List.length_map, listedBodies, List.length_map, ← List.countP_eq_length_filter] at hlen
    rw [hlen]
    exact hdecodes.num_eq MADT_ENT_LAPIC info.lapics hlapics
  · have hioapics := hdecodes.bodies MADT_ENT_IOAPIC 10 info.ioapics rfl rfl
    refine hioapics.trans (congrArg _ (List.filter_congr fun r _ => ?_))
    exact Bool.and_true _
  · have hoverrides := hdecodes.bodies MADT_ENT_IOAPIC_INT_OVER 8 info.intSrcOverride rfl rfl
    refine hoverrides.trans (congrArg _ (List.filter_congr fun r _ => ?_))
    exact Bool.and_true _

/-- An enabled processor, one that is not, and an override of the LAPIC address. -/
def threeRecords : List MadtRecord :=
  [⟨0, [1, 2, 1, 0, 0, 0], by decide, by decide⟩, ⟨0, [3, 4, 0, 0, 0, 0], by decide, by decide⟩,
    ⟨5, [0, 0, 0x10, 0, 0, 0xFE, 0, 0, 0, 0], by decide, by decide⟩]

/-- An RSDP at 0x10, an RSDT at 0x40 and a MADT at 0x80 with the three records. -/
def threeRecordsMadt (a : Nat) : UInt8 :=
  if 0xAC ≤ a then (encodeRecords threeRecords).getD (a - 0xAC) 0
  else (List.lookup a [(0x20, 0x40), (0x44, 40), (0x64, 0x80),
    (0x80, 0x41), (0x81, 0x50), (0x82, 0x49), (0x83, 0x43), (0x84, 72), (0x89, 131),
    (0xA6, 0xE0), (0xA7, 0xFE)]).getD 0

/-- Every array has room for sixteen. -/
theorem fitsArrays_of_length_le (h : records.length ≤ 16) : FitsArrays records := by
  intro t c hc
  have hle : 16 ≤ c := by
    unfold capacity MadtInfo.tableOf at hc
    grind [MadtInfo.cleared, PtrTable.cleared, MAX_CPU_NUM, MAX_INT_NUM, MAX_NMI_NUM, MAX_IOAPIC_NUM]
  exact Nat.le_trans List.countP_le_length (Nat.le_trans h hle)

theorem threeRecordsMadt_lists : ListsMadt threeRecordsMadt 0x10 0x80 :=
  ⟨by decide, by decide, by decide, 0, by decide, by decide, nofun⟩

theorem threeRecordsMadt_accepted : MadtAccepted threeRecordsMadt 0x80 :=
  ⟨by decide, by decide +kernel⟩

theorem threeRecordsMadt_holds : HoldsRecords threeRecordsMadt 0x80 threeRecords :=
  ⟨by decide, by unfold StoredAt; decide, by decide⟩

theorem acpiGetMadtInfo_decodes_three :
    ∃ fuel info, acpiGetMadtInfo (.all threeRecordsMadt) fuel 0x10 = .ok (true, info) ∧
      info.lapics.entries.map (bytesAt threeRecordsMadt · 6) = [[1, 2, 1, 0, 0, 0]] ∧
      info.lapicPtr = 0xFE000010 := by
  obtain ⟨fuel, info, hget, hlapics, -, -, -, haddr⟩ :=
    acpiGetMadtInfo_decodes threeRecordsMadt 0x10 0x80 threeRecords threeRecordsMadt_lists
      threeRecordsMadt_accepted threeRecordsMadt_holds (fitsArrays_of_length_le (by decide))
  exact ⟨fuel, info, hget, hlapics.trans (by decide), haddr.trans (by decide)⟩

end TalOS
