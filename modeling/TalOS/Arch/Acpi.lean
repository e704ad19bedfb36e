-- SUMMARY: `acpi_get_MADT_info` and what it calls; when its record loop ends and stays inside the MADT.
import TalOS.Lib.Access
import TalOS.Lib.Chain

/-!
# `arch/IA32/acpi.c`

The tables are packed records in memory, read through 32-bit pointers. The
arrays of `MADT_info_t` hold pointers to record bodies; storing past the end of
one is undefined. The loop over the records takes fuel, since it need not end.
-/

namespace TalOS

open MachineInt Access

/-! ## Layout -/

def ACPI_SIGN_LEN : Nat := 4

/-- The characters of `XSDT_LABEL` and `MADT_LABEL`. -/
def XSDT_LABEL : List UInt8 := [0x58, 0x53, 0x44, 0x54]
def MADT_LABEL : List UInt8 := [0x41, 0x50, 0x49, 0x43]

/-- `sizeof` of the packed types. -/
def SIZEOF_ACPI_HEADER : Nat := 36
def SIZEOF_MADT_LAPIC_HEADER : Nat := 8
def SIZEOF_MADT_VAR_RECORD : Nat := 2
def SIZEOF_MADT_IOAPIC_NMI_SRC : Nat := 7

def MADT_ENT_LAPIC : Nat := 0
def MADT_ENT_IOAPIC : Nat := 1
def MADT_ENT_IOAPIC_INT_OVER : Nat := 2
def MADT_ENT_LAPIC_NMI_SRC : Nat := 4
def MADT_ENT_LAPIC_ADDR_OVER : Nat := 5

def MADT_PROC_ENABLED : Nat := 1
def MADT_ONLINE_CAPABLE : Nat := 2

def MAX_CPU_NUM : Nat := 256
def MAX_INT_NUM : Nat := 256
def MAX_NMI_NUM : Nat := 16
def MAX_IOAPIC_NUM : Nat := 16

/-! ## The output -/

/-- An array of pointers with the number of entries in use. -/
structure PtrTable where
  slots : List Nat
  num : Nat
  deriving Repr, DecidableEq

namespace PtrTable

/-- All pointers `NULL`, none in use. -/
def cleared (capacity : Nat) : PtrTable := ⟨List.replicate capacity 0, 0⟩

/-- The entries in use. -/
def entries (t : PtrTable) : List Nat := t.slots.take t.num

/-- Put a pointer into the slot behind the entries in use. -/
def put (t : PtrTable) (p : Nat) : PtrTable := { t with slots := t.slots.set t.num p }

def advance (t : PtrTable) : PtrTable := { t with num := t.num + 1 }

/-- `put`, undefined past the end of the array. -/
def store (t : PtrTable) (p : Nat) : Except Stop PtrTable :=
  if t.num < t.slots.length then .ok (t.put p) else .error .undefined

end PtrTable

/-- `MADT_info_t` -/
structure MadtInfo where
  lapics : PtrTable
  lapicPtr : Nat
  intSrcOverride : PtrTable
  nmiSource : PtrTable
  ioapics : PtrTable
  deriving Repr, DecidableEq

/-- After `memset`. -/
def MadtInfo.cleared : MadtInfo where
  lapics := .cleared MAX_CPU_NUM
  lapicPtr := 0
  intSrcOverride := .cleared MAX_INT_NUM
  nmiSource := .cleared MAX_NMI_NUM
  ioapics := .cleared MAX_IOAPIC_NUM

/-- Before the record loop, with the header's `LAPICAddr`. -/
def MadtInfo.start (lapicAddr : Nat) : MadtInfo := { MadtInfo.cleared with lapicPtr := lapicAddr }

/-! ## The functions -/

/-- `acpi_tab_checksum` -/
def acpiTabChecksum (m : Mem) (tabAddr size : Nat) : Except Stop Bool := do
  let bytes ← loadBytes m tabAddr (u32 (tabAddr + size) - tabAddr)
  return u8 (bytes.map UInt8.toNat).sum == 0

/-- The size of an entry of an XSDT or an RSDT. -/
def sdtEntrySize (isXSDT : Bool) : Nat := if isXSDT then 8 else 4

/-- `XSDT->PointerToOtherSDT[i]` or `RSDT->PointerToOtherSDT[i]`, as a pointer. -/
def sdtEntry (m : Mem) (isXSDT : Bool) (sdtStart i : Nat) : Except Stop Nat :=
  if isXSDT then do
    let entry ← load m (u32 (sdtStart + SIZEOF_ACPI_HEADER + 8 * i)) 8
    return u32 entry
  else load m (u32 (sdtStart + SIZEOF_ACPI_HEADER + 4 * i)) 4

/-- The loop of `acpi_find_table` from entry `i` on, with `n` entries left. -/
def findTableLoop (m : Mem) (isXSDT : Bool) (sdtStart : Nat) (tableSignature : List UInt8) :
    Nat → Nat → Except Stop Nat
  | 0, _ => return 0
  | n + 1, i => do
    let retHdr ← sdtEntry m isXSDT sdtStart i
    let signature ← loadBytes m retHdr ACPI_SIGN_LEN
    if signature = tableSignature then return retHdr
    else findTableLoop m isXSDT sdtStart tableSignature n (i + 1)

/-- `acpi_find_table`; 0 is `NULL`. -/
def acpiFindTable (m : Mem) (sdtStart : Nat) (tableSignature : List UInt8) : Except Stop Nat := do
  let signature ← loadBytes m sdtStart ACPI_SIGN_LEN
  let isXSDT := signature == XSDT_LABEL
  let length ← load m (u32 (sdtStart + 4)) 4
  let tabsNum := sub32 length SIZEOF_ACPI_HEADER / sdtEntrySize isXSDT
  findTableLoop m isXSDT sdtStart tableSignature tabsNum 0

/-- The body of the record loop, less the advance of the pointer. -/
def parseRecord (m : Mem) (ptr : Nat) (info : MadtInfo) : Except Stop MadtInfo := do
  let entryType ← load m ptr 1
  let body := u32 (ptr + SIZEOF_MADT_VAR_RECORD)
  if entryType = MADT_ENT_LAPIC then
    let lapics ← info.lapics.store body
    -- the `Flags` are read through the pointer just stored
    let flags ← load m (body + 2) 4
    if flags &&& (MADT_PROC_ENABLED ||| MADT_ONLINE_CAPABLE) ≠ 0 then
      return { info with lapics := lapics.advance }
    else return { info with lapics := lapics }
  else if entryType = MADT_ENT_IOAPIC then
    let ioapics ← info.ioapics.store body
    return { info with ioapics := ioapics.advance }
  else if entryType = MADT_ENT_IOAPIC_INT_OVER then
    let intSrcOverride ← info.intSrcOverride.store body
    return { info with intSrcOverride := intSrcOverride.advance }
  else if entryType = MADT_ENT_LAPIC_ADDR_OVER then
    let lapicAddr ← load m (body + 2) 8
    return { info with lapicPtr := u32 lapicAddr }
  else if entryType = MADT_ENT_LAPIC_NMI_SRC then
    -- the offset is the size of another type than the record header's
    let nmiSource ← info.nmiSource.store (u32 (ptr + SIZEOF_MADT_IOAPIC_NMI_SRC))
    return { info with nmiSource := nmiSource.advance }
  else return info

/-- The record loop: `while(ptr < ptr_end)`. -/
def recordLoop (m : Mem) (ptrEnd : Nat) : Nat → Nat → MadtInfo → Except Stop MadtInfo
  | 0, _, _ => .error .outOfFuel
  | fuel + 1, ptr, info =>
    if ptr < ptrEnd then do
      let info ← parseRecord m ptr info
      let length ← load m (ptr + 1) 1
      recordLoop m ptrEnd fuel (u32 (ptr + length)) info
    else return info

/-- `MADT_header->Length` -/
def madtLength (byte : Nat → UInt8) (header : Nat) : Nat := leValue byte (u32 (header + 4)) 4

/-- The first record of the MADT. -/
def firstRecord (header : Nat) : Nat := u32 (header + SIZEOF_ACPI_HEADER + SIZEOF_MADT_LAPIC_HEADER)

/-- `acpi_get_MADT_info`, with `fuel` for the record loop. -/
def acpiGetMadtInfo (m : Mem) (fuel rsdp : Nat) : Except Stop (Bool × MadtInfo) := do
  let info := MadtInfo.cleared
  if rsdp = 0 then return (false, info)
  let rsdtAddress ← load m (u32 (rsdp + 16)) 4
  if rsdtAddress = 0 then return (false, info)
  let header ← acpiFindTable m rsdtAddress MADT_LABEL
  if header = 0 then return (false, info)
  let length ← load m (u32 (header + 4)) 4
  let valid ← acpiTabChecksum m header length
  if valid then
    let lapicAddr ← load m (u32 (header + SIZEOF_ACPI_HEADER)) 4
    let ptrEnd := u32 (header + length)
    let info ← recordLoop m ptrEnd fuel (firstRecord header) (.start lapicAddr)
    return (true, info)
  else return (false, info)

/-! ## One record -/

section Record

variable (byte : Nat → UInt8) (ptr : Nat) (info : MadtInfo)

/-- `var_rec->EntryType` -/
def entryType : Nat := leValue byte ptr 1

/-- `var_rec->Length` -/
def recordLength : Nat := leValue byte (ptr + 1) 1

/-- The `Flags` of a LAPIC record have the enabled or the online-capable bit. -/
def lapicUsable : Bool :=
  leValue byte (ptr + 4) 4 &&& (MADT_PROC_ENABLED ||| MADT_ONLINE_CAPABLE) != 0

/-- What the loop reads of a record: offsets and numbers of bytes. -/
def fieldReads (entryType : Nat) : List (Nat × Nat) :=
  [(0, 1), (1, 1)] ++
    if entryType = MADT_ENT_LAPIC then [(4, 4)]
    else if entryType = MADT_ENT_LAPIC_ADDR_OVER then [(4, 8)]
    else []

/-- The array that a record goes into. -/
def MadtInfo.tableOf (info : MadtInfo) (entryType : Nat) : Option PtrTable :=
  if entryType = MADT_ENT_LAPIC then some info.lapics
  else if entryType = MADT_ENT_IOAPIC then some info.ioapics
  else if entryType = MADT_ENT_IOAPIC_INT_OVER then some info.intSrcOverride
  else if entryType = MADT_ENT_LAPIC_NMI_SRC then some info.nmiSource
  else none

def MadtInfo.HasRoom (info : MadtInfo) (entryType : Nat) : Prop :=
  ∀ t, info.tableOf entryType = some t → t.num < t.slots.length

/-- What a record with all its fields readable does. -/
def MadtInfo.addRecord : MadtInfo :=
  let body := u32 (ptr + SIZEOF_MADT_VAR_RECORD)
  if entryType byte ptr = MADT_ENT_LAPIC then
    { info with
      lapics := if lapicUsable byte ptr then (info.lapics.put body).advance else info.lapics.put body }
  else if entryType byte ptr = MADT_ENT_IOAPIC then
    { info with ioapics := (info.ioapics.put body).advance }
  else if entryType byte ptr = MADT_ENT_IOAPIC_INT_OVER then
    { info with intSrcOverride := (info.intSrcOverride.put body).advance }
  else if entryType byte ptr = MADT_ENT_LAPIC_ADDR_OVER then
    { info with lapicPtr := u32 (leValue byte (ptr + 4) 8) }
  else if entryType byte ptr = MADT_ENT_LAPIC_NMI_SRC then
    { info with
      nmiSource := (info.nmiSource.put (u32 (ptr + SIZEOF_MADT_IOAPIC_NMI_SRC))).advance }
  else info

/-- The record behind the one at `ptr`. -/
def nextRecord : Nat := u32 (ptr + recordLength byte ptr)

end Record

variable {m : Mem} {byte : Nat → UInt8} {ptr ptrEnd fuel header : Nat} {info r : MadtInfo}

theorem PtrTable.store_eq_ok {t t' : PtrTable} {p : Nat} :
    t.store p = .ok t' ↔ t.num < t.slots.length ∧ t' = t.put p := by
  unfold PtrTable.store
  split
  · next h => simp [h, eq_comm]
  · next h => simp [h]

/-- Everything that the loop reads of the record at `ptr` may be read. -/
def RecordInside (m : Mem) (ptr : Nat) : Prop :=
  ∀ f ∈ fieldReads (entryType m.byte ptr), m.Readable (ptr + f.1) f.2

theorem readable_body (m : Mem) (ptr n : Nat) :
    m.Readable (u32 (ptr + SIZEOF_MADT_VAR_RECORD) + 2) n ↔ m.Readable (ptr + 4) n :=
  readable_u32 m (ptr + 2) 2 n

theorem leValue_body (byte : Nat → UInt8) (ptr n : Nat) :
    leValue byte (u32 (ptr + SIZEOF_MADT_VAR_RECORD) + 2) n = leValue byte (ptr + 4) n :=
  leValue_congr (u32_add_mod (ptr + 2) 2) n

/-- A record whose body goes into an array. -/
theorem store_advance_eq_ok {t : PtrTable} {p : Nat} {f : PtrTable → MadtInfo} {info' : MadtInfo} :
    (do let t' ← t.store p
        return f t'.advance : Except Stop MadtInfo) = .ok info' ↔
      t.num < t.slots.length ∧ info' = f (t.put p).advance := by
  simp only [bind_eq_ok, PtrTable.store_eq_ok, return_eq_ok]
  constructor
  · rintro ⟨t', ⟨hroom, rfl⟩, rfl⟩
    exact ⟨hroom, rfl⟩
  · rintro ⟨hroom, rfl⟩
    exact ⟨_, ⟨hroom, rfl⟩, rfl⟩

/-- The body of a LAPIC record goes into its array in any case, and stays there when the `Flags` are
set. -/
theorem store_lapic_eq_ok {t : PtrTable} {p : Nat} {f : PtrTable → MadtInfo} {info' : MadtInfo} :
    (do let t' ← t.store p
        let flags ← load m (u32 (ptr + SIZEOF_MADT_VAR_RECORD) + 2) 4
        if flags &&& (MADT_PROC_ENABLED ||| MADT_ONLINE_CAPABLE) ≠ 0 then return f t'.advance
        else return f t' : Except Stop MadtInfo) = .ok info' ↔
      m.Readable (ptr + 4) 4 ∧ t.num < t.slots.length ∧
        info' = f (if lapicUsable m.byte ptr then (t.put p).advance else t.put p) := by
  simp only [bind_eq_ok, PtrTable.store_eq_ok, load_eq_ok, readable_body, leValue_body, lapicUsable,
    bne_iff_ne]
  constructor
  · rintro ⟨t', ⟨hroom, rfl⟩, flags, ⟨hread, rfl⟩, hret⟩
    refine ⟨hread, hroom, ?_⟩
    split at hret
    · next hset => rw [← return_eq_ok.mp hret, if_pos hset]
    · next hset => rw [← return_eq_ok.mp hret, if_neg hset]
  · rintro ⟨hread, hroom, rfl⟩
    refine ⟨_, ⟨hroom, rfl⟩, _, ⟨hread, rfl⟩, ?_⟩
    split <;> rfl

theorem load_addr_eq_ok {f : Nat → MadtInfo} {info' : MadtInfo} :
    (do let lapicAddr ← load m (u32 (ptr + SIZEOF_MADT_VAR_RECORD) + 2) 8
        return f (u32 lapicAddr) : Except Stop MadtInfo) = .ok info' ↔
      m.Readable (ptr + 4) 8 ∧ info' = f (u32 (leValue m.byte (ptr + 4) 8)) := by
  simp only [bind_eq_ok, load_eq_ok, readable_body, leValue_body, return_eq_ok]
  constructor
  · rintro ⟨v, ⟨hread, rfl⟩, rfl⟩
    exact ⟨hread, rfl⟩
  · rintro ⟨hread, rfl⟩
    exact ⟨_, ⟨hread, rfl⟩, rfl⟩

/-- When the body of the loop goes through, and what it does then: the cases are the record types. -/
theorem parseRecord_eq_ok {info' : MadtInfo} :
    (parseRecord m ptr info = .ok info' ∧ m.Readable (ptr + 1) 1) ↔
      (RecordInside m ptr ∧ info.HasRoom (entryType m.byte ptr)) ∧ info' = info.addRecord m.byte ptr := by
  rw [parseRecord, bind_eq_ok]
  simp only [load_eq_ok, and_assoc, exists_and_left, exists_eq_left']
  unfold RecordInside MadtInfo.HasRoom MadtInfo.addRecord fieldReads MadtInfo.tableOf entryType
  generalize leValue m.byte ptr 1 = t
  by_cases h0 : t = MADT_ENT_LAPIC
  · subst h0
    simp only [if_true, store_lapic_eq_ok (f := fun t => { info with lapics := t })]
    simp
    tauto
  by_cases h1 : t = MADT_ENT_IOAPIC
  · subst h1
    simp only [if_neg h0, if_true, store_advance_eq_ok (f := fun t => { info with ioapics := t })]
    simp [show ¬ MADT_ENT_IOAPIC = MADT_ENT_LAPIC_ADDR_OVER by decide]
    tauto
  by_cases h2 : t = MADT_ENT_IOAPIC_INT_OVER
  · subst h2
    simp only [if_neg h0, if_neg h1, if_true,
      store_advance_eq_ok (f := fun t => { info with intSrcOverride := t })]
    simp [show ¬ MADT_ENT_IOAPIC_INT_OVER = MADT_ENT_LAPIC_ADDR_OVER by decide]
    tauto
  by_cases h5 : t = MADT_ENT_LAPIC_ADDR_OVER
  · subst h5
    simp only [if_neg h0, if_neg h1, if_neg h2, if_true,
      load_addr_eq_ok (f := fun a => { info with lapicPtr := a })]
    simp [show ¬ MADT_ENT_LAPIC_ADDR_OVER = MADT_ENT_LAPIC_NMI_SRC by decide]
    tauto
  simp only [if_neg h0, if_neg h1, if_neg h2, if_neg h5]
  by_cases h4 : t = MADT_ENT_LAPIC_NMI_SRC
  · subst h4
    simp only [if_true, store_advance_eq_ok (f := fun t => { info with nmiSource := t })]
    simp
    tauto
  · simp only [if_neg h4, return_eq_ok]
    simp [eq_comm (a := info')]
    tauto
/-! ## The loop -/

/-- Position and output after a turn of the loop. -/
def turn (byte : Nat → UInt8) (s : Nat × MadtInfo) : Nat × MadtInfo :=
  (nextRecord byte s.1, s.2.addRecord byte s.1)

/-- The loop has a turn, and the turn goes through. -/
def TurnOk (m : Mem) (ptrEnd : Nat) (s : Nat × MadtInfo) : Prop :=
  s.1 < ptrEnd ∧ RecordInside m s.1 ∧ s.2.HasRoom (entryType m.byte s.1)

theorem recordLoop_of_lt (hlt : ptr < ptrEnd) :
    recordLoop m ptrEnd (fuel + 1) ptr info = .ok r ↔
      TurnOk m ptrEnd (ptr, info) ∧
        recordLoop m ptrEnd fuel (turn m.byte (ptr, info)).1 (turn m.byte (ptr, info)).2 = .ok r := by
  rw [recordLoop, if_pos hlt, bind_eq_ok]
  constructor
  · rintro ⟨info', hparse, hrest⟩
    obtain ⟨length, hlength, hloop⟩ := bind_eq_ok.mp hrest
    obtain ⟨hread, rfl⟩ := load_eq_ok.mp hlength
    obtain ⟨hok, rfl⟩ := parseRecord_eq_ok.mp ⟨hparse, hread⟩
    exact ⟨⟨hlt, hok⟩, hloop⟩
  · rintro ⟨⟨-, hok⟩, hloop⟩
    obtain ⟨hparse, hread⟩ := parseRecord_eq_ok.mpr ⟨hok, rfl⟩
    exact ⟨_, hparse, bind_eq_ok.mpr ⟨_, load_of_readable hread, hloop⟩⟩

/-- The loop has the result `r` iff its turns go through up to a position at the end. -/
theorem recordLoop_eq_ok_iff :
    recordLoop m ptrEnd fuel ptr info = .ok r ↔
      ∃ n < fuel, (∀ i < n, TurnOk m ptrEnd ((turn m.byte)^[i] (ptr, info))) ∧
        ¬ ((turn m.byte)^[n] (ptr, info)).1 < ptrEnd ∧ ((turn m.byte)^[n] (ptr, info)).2 = r := by
  induction fuel generalizing ptr info with
  | zero => exact iff_of_false nofun nofun
  | succ fuel ih =>
    by_cases hlt : ptr < ptrEnd
    · rw [recordLoop_of_lt hlt, ih]
      constructor
      · rintro ⟨hok, n, hn, hturns, hend⟩
        refine ⟨n + 1, Nat.succ_lt_succ hn, ?_, hend⟩
        intro i hi
        cases i with
        | zero => exact hok
        | succ i => exact hturns i (Nat.lt_of_succ_lt_succ hi)
      · rintro ⟨n, hn, hturns, hend⟩
        cases n with
        | zero => exact absurd hlt hend.1
        | succ n =>
          exact ⟨hturns 0 (Nat.succ_pos n), n, Nat.lt_of_succ_lt_succ hn,
            fun i hi => hturns (i + 1) (Nat.succ_lt_succ hi), hend⟩
    · rw [recordLoop, if_neg hlt, return_eq_ok]
      constructor
      · intro h
        exact ⟨0, Nat.succ_pos _, nofun, hlt, h⟩
      · rintro ⟨n, -, hturns, -, hr⟩
        cases n with
        | zero => exact hr
        | succ n => exact absurd (hturns 0 (Nat.succ_pos n)).1 hlt

/-! ## The arrays over the loop -/

/-- The record at `ptr` takes a slot of the array for `t` for good. -/
def takesSlot (byte : Nat → UInt8) (t ptr : Nat) : Bool :=
  entryType byte ptr == t && (t != MADT_ENT_LAPIC || lapicUsable byte ptr)

/-- How many pointers the array for records of type `t` can hold. -/
def capacity (t : Nat) : Option Nat := (MadtInfo.cleared.tableOf t).map fun table => table.slots.length

/-- A record of another type leaves the array for type `t` alone. -/
theorem tableOf_addRecord_of_ne {t : Nat} (h : entryType byte ptr ≠ t) :
    (info.addRecord byte ptr).tableOf t = info.tableOf t := by
  unfold MadtInfo.addRecord MadtInfo.tableOf
  grind

/-- One record, seen from the array for type `t`. -/
theorem tableOf_addRecord (byte : Nat → UInt8) (ptr : Nat) {t : Nat} {table : PtrTable}
    (h : info.tableOf t = some table) :
    ∃ table', (info.addRecord byte ptr).tableOf t = some table' ∧
      table'.slots.length = table.slots.length ∧
      table'.num = table.num + (if takesSlot byte t ptr then 1 else 0) := by
  by_cases htype : entryType byte ptr = t
  · unfold MadtInfo.addRecord MadtInfo.tableOf takesSlot at *
    grind [PtrTable.advance, PtrTable.put, MADT_ENT_LAPIC, MADT_ENT_LAPIC_ADDR_OVER,
      MADT_ENT_LAPIC_NMI_SRC]
  · refine ⟨table, (tableOf_addRecord_of_ne htype).trans h, rfl, ?_⟩
    have hnone : takesSlot byte t ptr = false := by
      rw [takesSlot, beq_eq_false_iff_ne.mpr htype, Bool.false_and]
    rw [hnone]
    rfl

theorem turn_iterate_fst (byte : Nat → UInt8) (s : Nat × MadtInfo) (k : Nat) :
    ((turn byte)^[k] s).1 = (nextRecord byte)^[k] s.1 := by
  induction k generalizing s with
  | zero => rfl
  | succ k ih => exact ih (turn byte s)

/-- How many of the first `k` records take a slot of the array for type `t`. -/
def slotsTaken (byte : Nat → UInt8) (first t k : Nat) : Nat :=
  (List.range k).countP fun i => takesSlot byte t ((nextRecord byte)^[i] first)

/-- The array for type `t` after `k` turns. -/
theorem tableOf_iterate (byte : Nat → UInt8) (ptr k : Nat) {t : Nat} {table : PtrTable}
    (h : info.tableOf t = some table) :
    ∃ table', ((turn byte)^[k] (ptr, info)).2.tableOf t = some table' ∧
      table'.slots.length = table.slots.length ∧
      table'.num = table.num + slotsTaken byte ptr t k := by
  induction k with
  | zero => exact ⟨table, h, rfl, rfl⟩
  | succ k ih =>
    obtain ⟨table₁, htable₁, hlen₁, hnum₁⟩ := ih
    obtain ⟨table₂, htable₂, hlen₂, hnum₂⟩ :=
      tableOf_addRecord byte ((turn byte)^[k] (ptr, info)).1 htable₁
    rw [Function.iterate_succ_apply']
    refine ⟨table₂, htable₂, hlen₂.trans hlen₁, ?_⟩
    rw [hnum₂, hnum₁, turn_iterate_fst, slotsTaken, slotsTaken, List.range_succ, List.countP_append,
      Nat.add_assoc]
    congr 2
    simp [List.countP_cons]

/-- Whether there is an array for type `t` does not depend on what is in it. -/
theorem tableOf_isSome (info info' : MadtInfo) (t : Nat) :
    (info.tableOf t).isSome = (info'.tableOf t).isSome := by
  unfold MadtInfo.tableOf
  grind

/-- Room in the arrays during the loop, from the records before. -/
theorem hasRoom_iterate_iff (byte : Nat → UInt8) (first lapicAddr k t : Nat) :
    ((turn byte)^[k] (first, .start lapicAddr)).2.HasRoom t ↔
      ∀ c, capacity t = some c → slotsTaken byte first t k < c := by
  have hstart : (MadtInfo.start lapicAddr).tableOf t = MadtInfo.cleared.tableOf t := rfl
  unfold MadtInfo.HasRoom capacity
  cases htable : MadtInfo.cleared.tableOf t with
  | none =>
    refine iff_of_true ?_ nofun
    intro table h
    have hsome := tableOf_isSome ((turn byte)^[k] (first, .start lapicAddr)).2 MadtInfo.cleared t
    rw [h, htable] at hsome
    cases hsome
  | some table =>
    obtain ⟨table', htable', hlen, hnum⟩ := tableOf_iterate byte first k (hstart.trans htable)
    have hzero : table.num = 0 := by
      unfold MadtInfo.tableOf at htable
      grind [MadtInfo.cleared, PtrTable.cleared]
    rw [hzero, Nat.zero_add] at hnum
    rw [htable', Option.map_some]
    constructor
    · rintro h c ⟨⟩
      rw [← hnum, ← hlen]
      exact h table' rfl
    · rintro h table ⟨⟩
      rw [hnum, hlen]
      exact h _ rfl

/-! ## When the loop ends inside the table -/

/-- The `k`-th record, found by following the `Length` bytes. -/
def recordAt (byte : Nat → UInt8) (header k : Nat) : Nat := (nextRecord byte)^[k] (firstRecord header)

/-- `ptr_end` -/
def madtEnd (byte : Nat → UInt8) (header : Nat) : Nat := u32 (header + madtLength byte header)

/-- The records up to the `k`-th start before the end of the table. -/
def RecordVisited (byte : Nat → UInt8) (header : Nat) : Nat → Prop :=
  Chain.Visited (nextRecord byte) (· < madtEnd byte header) (firstRecord header)

/-- What the MADT must be like, besides its checksum. -/
structure RecordsSound (byte : Nat → UInt8) (header : Nat) : Prop where
  /-- The fields that are read of a record lie inside the table. -/
  inside : ∀ k, RecordVisited byte header k →
    ∀ f ∈ fieldReads (entryType byte (recordAt byte header k)), ∀ i < f.2,
      inRange header (madtLength byte header) (u32 (recordAt byte header k + f.1 + i)) = true
  /-- The output arrays have a slot for each record that goes into them. -/
  slots : ∀ k, RecordVisited byte header k →
    ∀ c, capacity (entryType byte (recordAt byte header k)) = some c →
      slotsTaken byte (firstRecord header) (entryType byte (recordAt byte header k)) k < c
  /-- No `Length` byte (0 in particular) leads back to a record visited before. -/
  noReturn : ∀ j k, j < k → RecordVisited byte header k →
    recordAt byte header j ≠ recordAt byte header k

/-! ### Finding the MADT -/

/-- The `n` bytes from address `a` on. -/
def bytesAt (byte : Nat → UInt8) (a n : Nat) : List UInt8 := (List.range n).map fun i => byte (u32 (a + i))

def isXsdt (byte : Nat → UInt8) (sdtStart : Nat) : Bool := bytesAt byte sdtStart ACPI_SIGN_LEN == XSDT_LABEL

/-- The number of tables that the RSDT or XSDT lists. -/
def sdtEntries (byte : Nat → UInt8) (sdtStart : Nat) : Nat :=
  sub32 (leValue byte (u32 (sdtStart + 4)) 4) SIZEOF_ACPI_HEADER / sdtEntrySize (isXsdt byte sdtStart)

/-- The address of the `i`-th table that it lists. -/
def listedTable (byte : Nat → UInt8) (sdtStart i : Nat) : Nat :=
  if isXsdt byte sdtStart then u32 (leValue byte (u32 (sdtStart + SIZEOF_ACPI_HEADER + 8 * i)) 8)
  else leValue byte (u32 (sdtStart + SIZEOF_ACPI_HEADER + 4 * i)) 4

/-- `RSDP_ptr->RsdtAddress` -/
def rsdtAddress (byte : Nat → UInt8) (rsdp : Nat) : Nat := leValue byte (u32 (rsdp + 16)) 4

/-- The table at `header` is the first one with the signature of a MADT among those that the RSDT or
XSDT lists. -/
structure ListsMadt (byte : Nat → UInt8) (rsdp header : Nat) : Prop where
  rsdp_ne : rsdp ≠ 0
  rsdt_ne : rsdtAddress byte rsdp ≠ 0
  signature : bytesAt byte header ACPI_SIGN_LEN = MADT_LABEL
  listed : ∃ i < sdtEntries byte (rsdtAddress byte rsdp),
    listedTable byte (rsdtAddress byte rsdp) i = header ∧
      ∀ j < i, bytesAt byte (listedTable byte (rsdtAddress byte rsdp) j) ACPI_SIGN_LEN ≠ MADT_LABEL

/-- The table passes the parser's checks: a pointer that is not `NULL` and a valid checksum. -/
structure MadtAccepted (byte : Nat → UInt8) (header : Nat) : Prop where
  header_ne : header ≠ 0
  checksum : acpiTabChecksum (.all byte) header (madtLength byte header) = .ok true

theorem sdtEntry_all (byte : Nat → UInt8) (sdtStart i : Nat) :
    sdtEntry (.all byte) (isXsdt byte sdtStart) sdtStart i = .ok (listedTable byte sdtStart i) := by
  unfold sdtEntry listedTable
  split
  · rw [load_all]
    rfl
  · exact load_all byte _ 4

/-- The search finds the first table with the signature. -/
theorem findTableLoop_eq {sdtStart n i k : Nat} {signature : List UInt8} (hk : i ≤ k) (hkn : k < i + n)
    (hsig : bytesAt byte (listedTable byte sdtStart k) ACPI_SIGN_LEN = signature)
    (hbefore : ∀ j < k, bytesAt byte (listedTable byte sdtStart j) ACPI_SIGN_LEN ≠ signature) :
    findTableLoop (.all byte) (isXsdt byte sdtStart) sdtStart signature n i =
      .ok (listedTable byte sdtStart k) := by
  induction n generalizing i with
  | zero => exact absurd (Nat.lt_of_le_of_lt hk hkn) (Nat.lt_irrefl _)
  | succ n ih =>
    simp only [findTableLoop, sdtEntry_all, ok_bind, loadBytes_all]
    rcases Nat.eq_or_lt_of_le hk with rfl | hlt
    · exact if_pos hsig
    · refine (if_neg (hbefore i hlt)).trans (ih hlt ?_)
      omega

theorem acpiFindTable_all (byte : Nat → UInt8) (sdtStart : Nat) (signature : List UInt8) :
    acpiFindTable (.all byte) sdtStart signature =
      findTableLoop (.all byte) (isXsdt byte sdtStart) sdtStart signature (sdtEntries byte sdtStart) 0 := by
  rw [acpiFindTable, loadBytes_all, ok_bind, load_all, ok_bind]
  rfl

theorem ListsMadt.find {rsdp : Nat} (h : ListsMadt byte rsdp header) :
    acpiFindTable (.all byte) (rsdtAddress byte rsdp) MADT_LABEL = .ok header := by
  obtain ⟨i, hi, hi', hbefore⟩ := h.listed
  rw [acpiFindTable_all, ← hi']
  refine findTableLoop_eq (Nat.zero_le i) (Nat.lt_of_lt_of_eq hi (Nat.zero_add _).symm) ?_ hbefore
  rw [hi']
  exact h.signature

/-- With an accepted MADT, all that remains is the record loop. -/
theorem ListsMadt.getMadtInfo {rsdp : Nat} (h : ListsMadt byte rsdp header)
    (haccepted : MadtAccepted byte header) (fuel : Nat) :
    acpiGetMadtInfo (.all byte) fuel rsdp = (fun info => (true, info)) <$>
      recordLoop (.all byte) (madtEnd byte header) fuel (firstRecord header)
        (.start (leValue byte (u32 (header + SIZEOF_ACPI_HEADER)) 4)) := by
  have hsum := haccepted.checksum
  have hfind := h.find
  have hrsdt := h.rsdt_ne
  unfold madtLength at hsum
  unfold rsdtAddress at hfind hrsdt
  unfold acpiGetMadtInfo
  simp only [if_neg h.rsdp_ne, load_all, ok_bind, if_neg hrsdt, hfind, if_neg haccepted.header_ne, hsum,
    if_true]
  rfl

/-- A table that is not accepted is not parsed. -/
theorem ListsMadt.getMadtInfo_rejected {rsdp : Nat} (h : ListsMadt byte rsdp header)
    (hrejected : ¬ MadtAccepted byte header) (fuel : Nat) :
    acpiGetMadtInfo (.all byte) fuel rsdp = .ok (false, .cleared) := by
  have hfind := h.find
  have hrsdt := h.rsdt_ne
  unfold rsdtAddress at hfind hrsdt
  unfold acpiGetMadtInfo
  simp only [if_neg h.rsdp_ne, load_all, ok_bind, if_neg hrsdt, hfind]
  by_cases hne : header = 0
  · exact if_pos hne
  · have hsum : acpiTabChecksum (.all byte) header (leValue byte (u32 (header + 4)) 4) = .ok false := by
      have hvalid : acpiTabChecksum (.all byte) header (madtLength byte header) ≠ .ok true :=
        fun hsum => hrejected ⟨hne, hsum⟩
      simp only [acpiTabChecksum, loadBytes_all, ok_bind] at hvalid ⊢
      exact congrArg _ (Bool.eq_false_iff.mpr fun htrue => hvalid (congrArg _ htrue))
    simp only [if_neg hne, hsum, ok_bind]
    rfl

/-- The parser returns, and if it parses the MADT, its record loop would also return if only the MADT
could be read. -/
def ParsesInside (byte : Nat → UInt8) (rsdp header : Nat) : Prop :=
  ∃ fuel result, acpiGetMadtInfo (.all byte) fuel rsdp = .ok result ∧
    (result.1 = true →
      recordLoop (.only byte header (madtLength byte header)) (madtEnd byte header) fuel
        (firstRecord header) (.start (leValue byte (u32 (header + SIZEOF_ACPI_HEADER)) 4)) = .ok result.2)

/-! ### The condition -/

theorem nextRecord_lt (byte : Nat → UInt8) (ptr : Nat) : nextRecord byte ptr < 2 ^ 32 := u32_lt _

theorem recordAt_lt (byte : Nat → UInt8) (header k : Nat) : recordAt byte header k < 2 ^ 32 := by
  cases k with
  | zero => exact u32_lt _
  | succ k =>
    rw [recordAt, Function.iterate_succ_apply']
    exact nextRecord_lt byte _

/-- A turn of the loop at the `k`-th record, over a memory with the bytes `m.byte`. -/
theorem turnOk_iff (m : Mem) (header lapicAddr k : Nat) :
    TurnOk m (madtEnd m.byte header) ((turn m.byte)^[k] (firstRecord header, .start lapicAddr)) ↔
      recordAt m.byte header k < madtEnd m.byte header ∧ RecordInside m (recordAt m.byte header k) ∧
        ∀ c, capacity (entryType m.byte (recordAt m.byte header k)) = some c →
          slotsTaken m.byte (firstRecord header) (entryType m.byte (recordAt m.byte header k)) k < c := by
  rw [TurnOk, hasRoom_iterate_iff, turn_iterate_fst]
  rfl

/-- If the loop ends inside the table, the records are sound: it ends at some position, and what it
has visited lies before that. -/
theorem ParsesInside.sound {rsdp : Nat} (h : ParsesInside byte rsdp header)
    (hlists : ListsMadt byte rsdp header) (haccepted : MadtAccepted byte header) :
    RecordsSound byte header := by
  obtain ⟨fuel, result, hget, hinside⟩ := h
  rw [hlists.getMadtInfo haccepted, map_eq_ok] at hget
  obtain ⟨info, -, rfl⟩ := hget
  obtain ⟨n, -, hturns, hend, -⟩ := recordLoop_eq_ok_iff.mp (hinside rfl)
  have hend' : ¬ recordAt byte header n < madtEnd byte header := by
    rw [turn_iterate_fst] at hend
    exact hend
  have hok (k : Nat) (hk : RecordVisited byte header k) :=
    (turnOk_iff (.only byte header (madtLength byte header)) header _ k).mp
      (hturns k (Nat.lt_of_not_le fun hle => hend' (hk n hle)))
  refine ⟨?_, ?_, ?_⟩
  · intro k hk f hf i hi
    exact (hok k hk).2.1 f hf i hi
  · intro k hk
    exact (hok k hk).2.2
  · intro j k hjk hk
    exact Chain.ne_of_ends hend' hjk hk

/-- If the records are sound, the loop ends: positions are bounded and do not repeat. -/
theorem RecordsSound.parsesInside {rsdp : Nat} (h : RecordsSound byte header)
    (hlists : ListsMadt byte rsdp header) (haccepted : MadtAccepted byte header) :
    ParsesInside byte rsdp header := by
  have hends : ∃ n, ¬ recordAt byte header n < madtEnd byte header :=
    Chain.ends_of_ne (recordAt_lt byte header) h.noReturn
  classical
  have hend := Nat.find_spec hends
  have hvisited : ∀ k < Nat.find hends, RecordVisited byte header k := fun k hk i hi =>
    not_not.mp (Nat.find_min hends (Nat.lt_of_le_of_lt hi hk))
  have hrun (m : Mem) (hbyte : m.byte = byte)
      (hinside : ∀ k < Nat.find hends, RecordInside m (recordAt byte header k)) :
      recordLoop m (madtEnd byte header) (Nat.find hends + 1) (firstRecord header)
        (.start (leValue byte (u32 (header + SIZEOF_ACPI_HEADER)) 4)) =
      .ok ((turn byte)^[Nat.find hends] (firstRecord header,
        .start (leValue byte (u32 (header + SIZEOF_ACPI_HEADER)) 4))).2 := by
    subst hbyte
    refine recordLoop_eq_ok_iff.mpr ⟨_, Nat.lt_succ_self _, ?_, ?_, rfl⟩
    · intro k hk
      exact (turnOk_iff m header _ k).mpr
        ⟨hvisited k hk k (Nat.le_refl k), hinside k hk, h.slots k (hvisited k hk)⟩
    · rw [turn_iterate_fst]
      exact hend
  refine ⟨Nat.find hends + 1, (true, _), ?_,
    fun _ => hrun (.only byte header (madtLength byte header)) rfl ?_⟩
  · rw [hlists.getMadtInfo haccepted, hrun (.all byte) rfl fun k _ f _ => readable_all byte _ _]
    rfl
  · intro k hk f hf i hi
    exact h.inside k (hvisited k hk) f hf i hi

/-- The parser returns and stays inside the MADT iff the MADT is not accepted or its records are
sound. -/
theorem acpiGetMadtInfo_parsesInside_iff (byte : Nat → UInt8) (rsdp header : Nat)
    (hlists : ListsMadt byte rsdp header) :
    ParsesInside byte rsdp header ↔ (MadtAccepted byte header → RecordsSound byte header) := by
  constructor
  · exact fun h => h.sound hlists
  · intro h
    by_cases haccepted : MadtAccepted byte header
    · exact (h haccepted).parsesInside hlists haccepted
    · exact ⟨0, _, hlists.getMadtInfo_rejected haccepted 0, nofun⟩

/-- A memory with an RSDP at 0x10, an RSDT at 0x40 and a MADT at 0x80 with one record of an unknown
type. -/
def tinyMadt (length checksum : UInt8) (a : Nat) : UInt8 :=
  (List.lookup a [(0x20, 0x40), (0x44, 40), (0x64, 0x80),
    (0x80, 0x41), (0x81, 0x50), (0x82, 0x49), (0x83, 0x43), (0x84, 46), (0x89, checksum),
    (0xAC, 0x7F), (0xAD, length)]).getD 0

theorem tinyMadt_two_lists : ListsMadt (tinyMadt 2 52) 0x10 0x80 where
  rsdp_ne := by decide
  rsdt_ne := by decide
  signature := by decide
  listed := ⟨0, by decide, by decide, nofun⟩

theorem tinyMadt_zero_lists : ListsMadt (tinyMadt 0 54) 0x10 0x80 where
  rsdp_ne := by decide
  rsdt_ne := by decide
  signature := by decide
  listed := ⟨0, by decide, by decide, nofun⟩

theorem tinyMadt_accepted : MadtAccepted (tinyMadt 0 54) 0x80 where
  header_ne := by decide
  checksum := by decide +kernel

/-- The record of two bytes is the only one. -/
theorem acpiGetMadtInfo_parsesInside_tiny : ParsesInside (tinyMadt 2 52) 0x10 0x80 := by
  refine (acpiGetMadtInfo_parsesInside_iff (tinyMadt 2 52) 0x10 0x80 tinyMadt_two_lists).mpr
    fun _ => ?_
  have hfirst (k : Nat) (hk : RecordVisited (tinyMadt 2 52) 0x80 k) : k = 0 := by
    by_contra hne
    have hsecond : recordAt (tinyMadt 2 52) 0x80 1 < madtEnd (tinyMadt 2 52) 0x80 :=
      hk 1 (Nat.pos_of_ne_zero hne)
    exact absurd hsecond (by decide)
  refine ⟨?_, ?_, ?_⟩
  · intro k hk
    rw [hfirst k hk]
    decide
  · intro k hk c hc
    rw [hfirst k hk, show capacity _ = none by decide] at hc
    cases hc
  · intro j k hjk hk
    exact absurd (hfirst k hk) (Nat.ne_of_gt (Nat.zero_lt_of_lt hjk))

/-- A record with `Length` 0 keeps the parser where it is. -/
theorem acpiGetMadtInfo_hangs :
    ¬ ∀ (byte : Nat → UInt8) (rsdp header : Nat), ListsMadt byte rsdp header →
      ParsesInside byte rsdp header := by
  intro h
  have hlists := tinyMadt_zero_lists
  have hsound := (h (tinyMadt 0 54) 0x10 0x80 hlists).sound hlists tinyMadt_accepted
  refine hsound.noReturn 0 1 (by decide) ?_ (by decide)
  intro i hi
  have hstay : recordAt (tinyMadt 0 54) 0x80 i = 0xAC := by
    rcases Nat.le_one_iff_eq_zero_or_eq_one.mp hi with rfl | rfl <;> decide
  show recordAt (tinyMadt 0 54) 0x80 i < _
  rw [hstay]
  decide

end TalOS
