-- SUMMARY: The memory map the boot loader hands over and the areas the kernel takes from it.
import TalOS.Lib.Access

/-!
# The boot loader's memory map

The map is a list of entries in memory, each with the size of its rest in front,
so that the next one is `size + 4` bytes on. `GetMemoryMap` goes through it in
steps of the structure's own size and takes the available entries into
`memAreas`, with start and length cut to 32 bits. The areas are the list of what
is stored there; that the array has `MAX_MEM_AREAS` places is not checked.
-/

open Access
open MachineInt

namespace TalOS

def MAX_MEM_AREAS : Nat := 50
def MULTIBOOT_MEMORY_AVAILABLE : Nat := 1

/-- `sizeof(multiboot_memory_map_t)` -/
def MULTIBOOT_MEMORY_MAP_SIZE : Nat := 24

/-! ## The map in memory -/

/-- `multiboot_memory_map_t` -/
structure MultibootMmapEntry where
  size : Nat
  addr : Nat
  len : Nat
  type : Nat
deriving Repr, DecidableEq

/-- The fields of `multiboot_info_t` that `GetMemoryMap` reads. -/
structure MultibootInfo where
  flags : Nat
  mmapLength : Nat
  mmapAddr : Nat
deriving Repr, DecidableEq

/-- The structure at an address. -/
def mmapEntryAt (byte : Nat → UInt8) (a : Nat) : MultibootMmapEntry where
  size := leValue byte a 4
  addr := leValue byte (a + 4) 8
  len := leValue byte (a + 12) 8
  type := leValue byte (a + 20) 4

/-- The entries of the map from an offset on, in the bytes that are left. -/
def entriesFrom (byte : Nat → UInt8) (info : MultibootInfo) : Nat → Nat → List MultibootMmapEntry
  | 0, _ => []
  | left + 1, offset =>
    if offset < info.mmapLength then
      let e := mmapEntryAt byte (info.mmapAddr + offset)
      e :: entriesFrom byte info left (offset + e.size + 4)
    else []

/-- The entries of the map. -/
def mmapEntries (byte : Nat → UInt8) (info : MultibootInfo) : List MultibootMmapEntry :=
  entriesFrom byte info info.mmapLength 0

/-- A byte of memory that an entry of the map says is available. -/
def AvailableIn (entries : List MultibootMmapEntry) (a : Nat) : Prop :=
  ∃ e ∈ entries, e.type = MULTIBOOT_MEMORY_AVAILABLE ∧ e.addr ≤ a ∧ a < e.addr + e.len

/-! ## GetMemoryMap -/

/-- `mem_area_t` -/
structure MemArea where
  start : Nat
  length : Nat
deriving Repr, DecidableEq

/-- `mem_map_t`, with what is in `memAreas`. -/
structure MemMap where
  areasNum : Nat
  areas : List MemArea
deriving Repr, DecidableEq

/-- `memAreas[memAreasNum]` for an available entry. -/
def MultibootMmapEntry.area (e : MultibootMmapEntry) : MemArea := ⟨u32 e.addr, u32 e.len⟩

/-- The loop of `GetMemoryMap`. -/
def memoryMapLoop (byte : Nat → UInt8) (info : MultibootInfo) :
    Nat → Nat → List MemArea → Option (List MemArea)
  | 0, _, _ => none
  | fuel + 1, i, memAreas =>
    if i < info.mmapLength then
      let mbmm := mmapEntryAt byte (u32 (info.mmapAddr + i))
      memoryMapLoop byte info fuel (u32 (i + MULTIBOOT_MEMORY_MAP_SIZE))
        (if mbmm.type = MULTIBOOT_MEMORY_AVAILABLE then memAreas ++ [mbmm.area] else memAreas)
    else some memAreas

/-- The boot loader has a memory map to give. -/
def MultibootInfo.mmapValid (info : MultibootInfo) : Prop := info.flags >>> 6 &&& 0x1 ≠ 0

instance (info : MultibootInfo) : Decidable info.mmapValid :=
  inferInstanceAs (Decidable (_ ≠ _))

/-- `GetMemoryMap`; without a map it does not return. -/
def getMemoryMap (byte : Nat → UInt8) (multibootInfo : Option MultibootInfo) (fuel : Nat) :
    Option MemMap := do
  let info ← multibootInfo
  if info.mmapValid then
    let memAreas ← memoryMapLoop byte info fuel 0 []
    some ⟨memAreas.length, memAreas⟩
  else none

/-- What the areas are for: there are no more than the array holds, and memory in
one of them is memory of the map. -/
structure MapSound (entries : List MultibootMmapEntry) (memMap : MemMap) : Prop where
  fits : memMap.areasNum ≤ MAX_MEM_AREAS
  available : ∀ area ∈ memMap.areas, ∀ a, area.start ≤ a → a < area.start + area.length →
    AvailableIn entries a

/-! ## What the loop takes -/

/-- The type the loop asks for. -/
def MultibootMmapEntry.isAvailable (e : MultibootMmapEntry) : Bool :=
  e.type = MULTIBOOT_MEMORY_AVAILABLE

section
variable (byte : Nat → UInt8) (info : MultibootInfo)

/-- The `k`-th structure, if all are of the same size. -/
def mmapSlot (k : Nat) : MultibootMmapEntry :=
  mmapEntryAt byte (info.mmapAddr + MULTIBOOT_MEMORY_MAP_SIZE * k)

/-- The structures the loop looks at. -/
def mmapSlots : List MultibootMmapEntry :=
  (List.range' 0 ((info.mmapLength + 23) / MULTIBOOT_MEMORY_MAP_SIZE)).map (mmapSlot byte info)

/-- Those it takes. -/
def availableSlots : List MultibootMmapEntry :=
  (mmapSlots byte info).filter MultibootMmapEntry.isAvailable

end

theorem mmapEntryAt_u32 (byte : Nat → UInt8) (a : Nat) :
    mmapEntryAt byte (u32 a) = mmapEntryAt byte a := by
  have hfield (d n : Nat) : leValue byte (u32 a + d) n = leValue byte (a + d) n :=
    leValue_congr (u32_add_mod a d) n
  have hsize : leValue byte (u32 a) 4 = leValue byte a 4 := hfield 0 4
  simp only [mmapEntryAt, hfield, hsize]

variable {byte : Nat → UInt8} {info : MultibootInfo}

theorem memoryMapLoop_eq (byte : Nat → UInt8) {info : MultibootInfo}
    (hroom : info.mmapLength + 24 ≤ 2 ^ 32) {m k fuel : Nat}
    (hm : k + m = (info.mmapLength + 23) / MULTIBOOT_MEMORY_MAP_SIZE) (hfuel : m < fuel)
    (memAreas : List MemArea) :
    memoryMapLoop byte info fuel (MULTIBOOT_MEMORY_MAP_SIZE * k) memAreas =
      some (memAreas ++ (((List.range' k m).map (mmapSlot byte info)).filter
        MultibootMmapEntry.isAvailable).map MultibootMmapEntry.area) := by
  unfold MULTIBOOT_MEMORY_MAP_SIZE at *
  induction m generalizing k fuel memAreas with
  | zero =>
    obtain ⟨fuel, rfl⟩ : ∃ f, fuel = f + 1 := ⟨fuel - 1, by omega⟩
    rw [memoryMapLoop, if_neg (by omega)]
    simp
  | succ m ih =>
    obtain ⟨fuel, rfl⟩ : ∃ f, fuel = f + 1 := ⟨fuel - 1, by omega⟩
    have hnext : u32 (24 * k + 24) = 24 * (k + 1) := u32_of_lt (by omega)
    have hslot : mmapEntryAt byte (u32 (info.mmapAddr + 24 * k)) = mmapSlot byte info k :=
      mmapEntryAt_u32 byte _
    rw [memoryMapLoop, if_pos (by omega), MULTIBOOT_MEMORY_MAP_SIZE, hnext, hslot]
    dsimp only
    rw [ih (by omega) (by omega), List.range'_succ, List.map_cons]
    by_cases htype : (mmapSlot byte info k).type = MULTIBOOT_MEMORY_AVAILABLE
    · have havailable : (mmapSlot byte info k).isAvailable = true := decide_eq_true htype
      rw [if_pos htype, List.filter_cons_of_pos havailable, List.map_cons, List.append_assoc]
      rfl
    · have hnot : ¬ (mmapSlot byte info k).isAvailable = true := mt of_decide_eq_true htype
      rw [if_neg htype, List.filter_cons_of_neg hnot]

/-- What `GetMemoryMap` reports. -/
def reportedMap (byte : Nat → UInt8) (info : MultibootInfo) : MemMap where
  areasNum := (availableSlots byte info).length
  areas := (availableSlots byte info).map MultibootMmapEntry.area

/-- It returns, with the available structures. -/
theorem getMemoryMap_eq (byte : Nat → UInt8) {info : MultibootInfo} (hvalid : info.mmapValid)
    (hroom : info.mmapLength + 24 ≤ 2 ^ 32) {fuel : Nat} (hfuel : info.mmapLength < fuel) :
    getMemoryMap byte (some info) fuel = some (reportedMap byte info) := by
  have hsteps : (info.mmapLength + 23) / MULTIBOOT_MEMORY_MAP_SIZE < fuel := by
    unfold MULTIBOOT_MEMORY_MAP_SIZE
    omega
  have hloop := memoryMapLoop_eq byte hroom (k := 0) (Nat.zero_add _) hsteps []
  rw [Nat.mul_zero, List.nil_append] at hloop
  simp only [getMemoryMap, Option.bind_eq_bind, Option.bind_some, if_pos hvalid, hloop,
    List.length_map]
  rfl

theorem memoryMapLoop_mono {fuel i : Nat} {l r : List MemArea}
    (h : memoryMapLoop byte info fuel i l = some r) {fuel' : Nat} (hle : fuel ≤ fuel') :
    memoryMapLoop byte info fuel' i l = some r := by
  induction fuel generalizing fuel' i l with
  | zero => exact nomatch h
  | succ fuel ih =>
    obtain ⟨fuel', rfl⟩ : ∃ f, fuel' = f + 1 := ⟨fuel' - 1, by omega⟩
    rw [memoryMapLoop] at h ⊢
    split at h
    · next hi =>
      rw [if_pos hi]
      exact ih h (by omega)
    · next hi =>
      rw [if_neg hi]
      exact h

theorem getMemoryMap_mono {multibootInfo : Option MultibootInfo} {fuel fuel' : Nat} {r : MemMap}
    (h : getMemoryMap byte multibootInfo fuel = some r) (hle : fuel ≤ fuel') :
    getMemoryMap byte multibootInfo fuel' = some r := by
  cases multibootInfo with
  | none => exact nomatch h
  | some info =>
    simp only [getMemoryMap, Option.bind_eq_bind, Option.bind_some] at h ⊢
    split at h
    · next hvalid =>
      obtain ⟨l, hl, hr⟩ := Option.bind_eq_some_iff.mp h
      rw [if_pos hvalid, memoryMapLoop_mono hl hle]
      exact hr
    · exact nomatch h

/-- Whatever it returns is that. -/
theorem getMemoryMap_unique (hvalid : info.mmapValid) (hroom : info.mmapLength + 24 ≤ 2 ^ 32)
    {fuel : Nat} {memMap : MemMap} (h : getMemoryMap byte (some info) fuel = some memMap) :
    memMap = reportedMap byte info := by
  have heq := getMemoryMap_eq byte hvalid hroom (Nat.lt_succ_self _)
  have hmore := getMemoryMap_mono h (Nat.le_max_left fuel (info.mmapLength + 1))
  rw [getMemoryMap_mono heq (Nat.le_max_right fuel (info.mmapLength + 1))] at hmore
  exact (Option.some.inj hmore).symm

/-! ## When the map is sound -/

/-- An entry below 4 GiB keeps its start, and its length does not grow. -/
theorem availableIn_area {entries : List MultibootMmapEntry} {e : MultibootMmapEntry}
    (he : e ∈ entries) (htype : e.type = MULTIBOOT_MEMORY_AVAILABLE) (hlow : e.addr < 2 ^ 32)
    {a : Nat} (hstart : e.area.start ≤ a) (hend : a < e.area.start + e.area.length) :
    AvailableIn entries a := by
  have haddr : e.area.start = e.addr := u32_of_lt hlow
  have hlen : e.area.length ≤ e.len := Nat.mod_le _ _
  rw [haddr] at hstart hend
  exact ⟨e, he, htype, hstart, by omega⟩

/-- The exact condition: no more available structures than places, and what is
not an entry of the map below 4 GiB falls, cut to 32 bits, on available memory. -/
def MapFits (byte : Nat → UInt8) (info : MultibootInfo) : Prop :=
  (availableSlots byte info).length ≤ MAX_MEM_AREAS ∧
    ∀ e ∈ availableSlots byte info, ¬ (e ∈ mmapEntries byte info ∧ e.addr < 2 ^ 32) →
      ∀ a, u32 e.addr ≤ a → a < u32 e.addr + u32 e.len → AvailableIn (mmapEntries byte info) a

theorem mapSound_reportedMap_iff :
    MapSound (mmapEntries byte info) (reportedMap byte info) ↔ MapFits byte info := by
  constructor
  · rintro ⟨hfits, havailable⟩
    refine ⟨hfits, fun e he _ => ?_⟩
    exact havailable e.area (List.mem_map_of_mem he)
  · rintro ⟨hfits, hcut⟩
    refine ⟨hfits, fun area harea => ?_⟩
    obtain ⟨e, he, rfl⟩ := List.mem_map.mp harea
    by_cases hlow : e ∈ mmapEntries byte info ∧ e.addr < 2 ^ 32
    · have htype : e.type = MULTIBOOT_MEMORY_AVAILABLE := of_decide_eq_true (List.mem_filter.mp he).2
      exact fun a => availableIn_area hlow.1 htype hlow.2
    · exact hcut e he hlow

/-- The reported areas are available memory exactly if the condition holds of the
map. A map does not fill the address space it is in, next to the structure that
points to it. -/
theorem getMemoryMap_sound_iff (byte : Nat → UInt8) {info : MultibootInfo}
    (hvalid : info.mmapValid) (hroom : info.mmapLength + 24 ≤ 2 ^ 32) :
    (∃ fuel memMap, getMemoryMap byte (some info) fuel = some memMap ∧
        MapSound (mmapEntries byte info) memMap) ↔
      MapFits byte info := by
  rw [← mapSound_reportedMap_iff]
  constructor
  · rintro ⟨fuel, memMap, hrun, hsound⟩
    rw [getMemoryMap_unique hvalid hroom hrun] at hsound
    exact hsound
  · exact fun hsound => ⟨_, _, getMemoryMap_eq byte hvalid hroom (Nat.lt_succ_self _), hsound⟩

/-- An available entry of one page at 4 GiB, alone in its map. -/
def highEntry : List UInt8 :=
  [20, 0, 0, 0] ++ [0, 0, 0, 0, 1, 0, 0, 0] ++ [0, 0x10, 0, 0, 0, 0, 0, 0] ++ [1, 0, 0, 0]

def highMap : MultibootInfo := ⟨0x40, 24, 0⟩

theorem getMemoryMap_sound_iff_high :
    highMap.mmapValid ∧ highMap.mmapLength + 24 ≤ 2 ^ 32 ∧
      ((∃ fuel memMap, getMemoryMap (highEntry.getD · 0) (some highMap) fuel = some memMap ∧
          MapSound (mmapEntries (highEntry.getD · 0) highMap) memMap) ↔
        MapFits (highEntry.getD · 0) highMap) :=
  ⟨by decide, by decide, getMemoryMap_sound_iff (highEntry.getD · 0) (by decide) (by decide)⟩

/-- Its page is reported at address 0. -/
theorem getMemoryMap_high :
    ¬ ∀ (byte : Nat → UInt8) (info : MultibootInfo), info.mmapValid → info.mmapLength + 24 ≤ 2 ^ 32 →
      ∃ fuel memMap, getMemoryMap byte (some info) fuel = some memMap ∧
        MapSound (mmapEntries byte info) memMap := by
  intro hall
  obtain ⟨fuel, memMap, hrun, hsound⟩ := hall (highEntry.getD · 0) highMap (by decide) (by decide)
  rw [getMemoryMap_unique (by decide) (by decide) hrun] at hsound
  have harea : (reportedMap (highEntry.getD · 0) highMap).areas = [⟨0, 0x1000⟩] := by decide
  have hentries : mmapEntries (highEntry.getD · 0) highMap = [⟨20, 2 ^ 32, 0x1000, 1⟩] := by decide
  obtain ⟨e, he, -, hstart, -⟩ := hsound.available ⟨0, 0x1000⟩ (by rw [harea]; simp) 0
    (Nat.le_refl _) (by decide)
  rw [hentries, List.mem_singleton] at he
  rw [he] at hstart
  exact absurd hstart (by decide)

/-! ## Maps of entries of one size -/

theorem entriesFrom_eq {m k left : Nat} (hm : info.mmapLength = MULTIBOOT_MEMORY_MAP_SIZE * (k + m))
    (hsize : ∀ j, k ≤ j → j < k + m → (mmapSlot byte info j).size = 20) (hleft : m ≤ left) :
    entriesFrom byte info left (MULTIBOOT_MEMORY_MAP_SIZE * k) =
      (List.range' k m).map (mmapSlot byte info) := by
  induction m generalizing k left with
  | zero =>
    cases left with
    | zero => rfl
    | succ left => exact if_neg (Nat.not_lt.mpr (Nat.le_of_eq hm))
  | succ m ih =>
    obtain ⟨left, rfl⟩ := Nat.exists_eq_add_of_le' (Nat.le_trans (Nat.le_add_left 1 m) hleft)
    have hnext : MULTIBOOT_MEMORY_MAP_SIZE * k +
        (mmapEntryAt byte (info.mmapAddr + MULTIBOOT_MEMORY_MAP_SIZE * k)).size + 4 =
          MULTIBOOT_MEMORY_MAP_SIZE * (k + 1) := by
      have hk := hsize k (Nat.le_refl k) (Nat.lt_add_of_pos_right (Nat.succ_pos m))
      rw [mmapSlot] at hk
      rw [hk, Nat.mul_succ]
      rfl
    have hlt : MULTIBOOT_MEMORY_MAP_SIZE * k < info.mmapLength := by
      rw [hm]
      exact Nat.mul_lt_mul_of_pos_left (Nat.lt_add_of_pos_right (Nat.succ_pos m)) (by decide)
    have hrest : info.mmapLength = MULTIBOOT_MEMORY_MAP_SIZE * (k + 1 + m) := by
      rw [hm, Nat.add_right_comm, Nat.add_assoc]
    rw [entriesFrom, if_pos hlt, List.range'_succ, List.map_cons]
    dsimp only
    rw [hnext, ih hrest (fun j hj hj' => hsize j (by omega) (by omega)) (by omega)]
    rfl

/-- With entries of the structure's own size the loop looks at the entries. -/
theorem mmapSlots_eq_mmapEntries {n : Nat} (hn : info.mmapLength = MULTIBOOT_MEMORY_MAP_SIZE * n)
    (hsize : ∀ j < n, (mmapSlot byte info j).size = 20) :
    mmapSlots byte info = mmapEntries byte info := by
  have hcount : (info.mmapLength + 23) / MULTIBOOT_MEMORY_MAP_SIZE = n := by
    rw [hn]
    unfold MULTIBOOT_MEMORY_MAP_SIZE
    omega
  have hleft : n ≤ info.mmapLength := by
    rw [hn]
    exact Nat.le_mul_of_pos_left n (by decide)
  have hentries := entriesFrom_eq (k := 0) (by rw [hn, Nat.zero_add])
    (fun j _ hj => hsize j (by omega)) hleft
  rw [mmapSlots, hcount]
  exact hentries.symm

/-- Then only the available entries from 4 GiB on matter. -/
theorem mapFits_iff {n : Nat} (hn : info.mmapLength = MULTIBOOT_MEMORY_MAP_SIZE * n)
    (hsize : ∀ j < n, (mmapSlot byte info j).size = 20) :
    MapFits byte info ↔ (availableSlots byte info).length ≤ MAX_MEM_AREAS ∧
      ∀ e ∈ mmapEntries byte info, e.isAvailable → 2 ^ 32 ≤ e.addr →
        ∀ a, u32 e.addr ≤ a → a < u32 e.addr + u32 e.len →
          AvailableIn (mmapEntries byte info) a := by
  refine and_congr_right fun _ => ?_
  rw [availableSlots, mmapSlots_eq_mmapEntries hn hsize]
  constructor
  · intro h e he havailable hhigh
    exact h e (List.mem_filter.mpr ⟨he, havailable⟩) fun hlow => Nat.not_lt.mpr hhigh hlow.2
  · intro h e he hhigh
    obtain ⟨he, havailable⟩ := List.mem_filter.mp he
    exact h e he havailable (Nat.le_of_not_lt fun hlt => hhigh ⟨he, hlt⟩)

end TalOS
