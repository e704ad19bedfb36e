-- SUMMARY: The scan of a system with one or several PCI host controllers.
import TalOS.Arch.Pci
import TalOS.Coresys.Vfs

/-!
# Scan of the host controllers

`pci_scan` makes an empty `/sys/device/pci` and scans the bus of every host
controller. The functions of device 0:0 stand for the host controllers when it
is multi-function, and the bus of a host has the number of its function. Such a
bus may also lie behind a bridge of an earlier host; its own scan then finds the
directories there, and the failure ends the scan of the system.
-/

open Walk

namespace TalOS

def RFS_FILE_ALREADY_EXISTS : Int := 1

/-! ## The directory of the scan -/

/-- What `/sys/device/pci` is: not there, or a directory with its directories. -/
abbrev PciRoot := Option (List PciDir)

/-- `ramfs_mkDir("pci", "/sys/device", &fserr)`: whether there is a new node, and
what is in `fserr`. -/
def mkPciDir : PciRoot → PciRoot × Bool × Int
  | none => (some [], true, VFS_T_OK)
  | some fs => (some fs, false, RFS_FILE_ALREADY_EXISTS)

/-- `ramfs_deleteNode("/sys/device/pci")` -/
def deletePciDir : PciRoot → PciRoot × Int
  | none => (none, VFS_T_NOK)
  | some _ => (none, VFS_T_OK)

/-! ## The scan -/

/-- The loop over the functions of 0:0, which stops at the first one that is not
there. -/
def hostLoop (cfg : ConfigSpace) (scan : UInt8 → List PciDir → Option (List PciDir × Bool)) :
    List UInt8 → List PciDir → Option (List PciDir × Bool)
  | [], fs => some (fs, RET_T_OK)
  | function :: functions, fs =>
    if pciGetVendorID cfg 0 0 function = PCI_NOT_VALID_VENDOR_ID then some (fs, RET_T_OK)
    else (scan function fs).bind fun r =>
      if r.2 ≠ RET_T_OK then some (r.1, RET_T_NOK)
      else hostLoop cfg scan functions r.1

/-- The function numbers of a device: `PCI_FUNC_PER_DEV` is 8. -/
def functionNumbers : List UInt8 := (List.range 8).map Nat.toUInt8

/-- `pci_scan`, with buses nested at most `depth` deep. -/
def pciScan (cfg : ConfigSpace) (beyond depth : Nat) (pci : PciRoot) : Option (PciRoot × Bool) :=
  let made := mkPciDir pci
  let remade : PciRoot × Bool :=
    if made.2.1 then (made.1, true)
    else if made.2.2 ≠ RFS_FILE_ALREADY_EXISTS then (made.1, false)
    else
      let deleted := deletePciDir made.1
      if deleted.2 ≠ VFS_T_OK then (deleted.1, false)
      else ((mkPciDir deleted.1).1, (mkPciDir deleted.1).2.1)
  match remade with
  | (some fs, true) =>
    let scanned :=
      if pciGetHeaderType cfg 0 0 0 &&& PCI_HDR_IS_MULTIFUNCTION = 0 then
        (pciScanBus cfg beyond depth 0 fs).map fun r =>
          if r.2 ≠ RET_T_OK then (r.1, RET_T_NOK) else (r.1, RET_T_OK)
      else hostLoop cfg (pciScanBus cfg beyond depth) functionNumbers fs
    scanned.map fun r => (some r.1, r.2)
  | (pci, _) => some (pci, RET_T_NOK)

/-- A scan begins with an empty directory, whether or not there was one. -/
theorem pciScan_eq (cfg : ConfigSpace) (beyond depth : Nat) (pci : PciRoot)
    (hmulti : pciGetHeaderType cfg 0 0 0 &&& PCI_HDR_IS_MULTIFUNCTION ≠ 0) :
    pciScan cfg beyond depth pci =
      (hostLoop cfg (pciScanBus cfg beyond depth) functionNumbers []).map
        fun r => (some r.1, r.2) := by
  cases pci <;> exact congrArg (Option.map _) (if_neg hmulti)

/-! ## Host controllers -/

/-- How many of the functions of 0:0 come before the first that is not there. -/
def hostCount (cfg : ConfigSpace) : Nat :=
  (functionNumbers.takeWhile fun function =>
    pciGetVendorID cfg 0 0 function ≠ PCI_NOT_VALID_VENDOR_ID).length

/-- The buses of the first `count` host controllers. -/
def hostBuses (count : Nat) : List UInt8 := (List.range count).map Nat.toUInt8

/-- The buses of the first `count` host controllers, and the bus behind every
bridge that is present on one of them. -/
inductive ReachableFrom (cfg : ConfigSpace) (count : Nat) : UInt8 → Prop
  | host {bus : UInt8} (hbus : bus.toNat < count) : ReachableFrom cfg count bus
  | bridge {f : PciFunction} (hbus : ReachableFrom cfg count f.bus) (hpresent : Present cfg f)
      (hbridge : IsBridge cfg f) : ReachableFrom cfg count (secondaryBus cfg f)

theorem hostCount_le (cfg : ConfigSpace) : hostCount cfg ≤ 8 :=
  (List.takeWhile_prefix _).length_le

/-- The functions that the loop comes to have the numbers of the host buses. -/
theorem takeWhile_functionNumbers (cfg : ConfigSpace) :
    (functionNumbers.takeWhile fun function =>
      pciGetVendorID cfg 0 0 function ≠ PCI_NOT_VALID_VENDOR_ID) = hostBuses (hostCount cfg) := by
  have htake := List.prefix_iff_eq_take.mp (List.takeWhile_prefix
    (p := fun function => pciGetVendorID cfg 0 0 function ≠ PCI_NOT_VALID_VENDOR_ID)
    (l := functionNumbers))
  rw [htake, ← hostCount, functionNumbers, ← List.map_take, List.take_range,
    Nat.min_eq_left (hostCount_le cfg), hostBuses]

theorem mem_hostBuses {count : Nat} {bus : UInt8} :
    bus ∈ hostBuses count ↔ bus.toNat < count := by
  rw [hostBuses, List.mem_map]
  constructor
  · rintro ⟨n, hn, rfl⟩
    exact Nat.lt_of_le_of_lt (Nat.mod_le n _) (List.mem_range.mp hn)
  · exact fun h => ⟨bus.toNat, List.mem_range.mpr h, by simp⟩

/-- The loop over the functions is the loop over the host buses. -/
theorem hostLoop_eq (cfg : ConfigSpace)
    (scan : UInt8 → List PciDir → Option (List PciDir × Bool)) (functions : List UInt8)
    (fs : List PciDir) :
    hostLoop cfg scan functions fs =
      forEach scan (functions.takeWhile fun function =>
        pciGetVendorID cfg 0 0 function ≠ PCI_NOT_VALID_VENDOR_ID) fs := by
  induction functions generalizing fs with
  | nil => rfl
  | cons function functions ih =>
    by_cases habsent : pciGetVendorID cfg 0 0 function = PCI_NOT_VALID_VENDOR_ID
    · rw [hostLoop, if_pos habsent, List.takeWhile_cons_of_neg (by simpa using habsent)]
      rfl
    · rw [hostLoop, if_neg habsent, List.takeWhile_cons_of_pos (by simpa using habsent)]
      exact forEach_cons scan function _ ih fs

/-- The buses that the host buses reach in the graph of buses. -/
theorem reachableFrom_iff {cfg : ConfigSpace} {count : Nat} {bus : UInt8} :
    ReachableFrom cfg count bus ↔ ∃ r ∈ hostBuses count, Reach (pciGraph cfg) r bus := by
  constructor
  · intro h
    induction h with
    | host hbus => exact ⟨_, mem_hostBuses.mpr hbus, .refl⟩
    | bridge _ hpresent hbridge ih =>
      obtain ⟨r, hr, hreach⟩ := ih
      exact ⟨r, hr, hreach.tail (edge_iff.mpr ⟨_, rfl, hpresent, hbridge, rfl⟩)⟩
  · rintro ⟨r, hr, hreach⟩
    induction hreach with
    | refl => exact .host (mem_hostBuses.mp hr)
    | tail _ hedge ih =>
      obtain ⟨f, rfl, hpresent, hbridge, rfl⟩ := edge_iff.mp hedge
      exact .bridge ih hpresent hbridge

/-- The bus of a host has no function that is there. -/
def BusEmpty (cfg : ConfigSpace) (bus : UInt8) : Prop := ∀ f, f.bus = bus → ¬ Present cfg f

theorem busFunctions_eq_nil {cfg : ConfigSpace} {bus : UInt8} :
    busFunctions cfg bus = [] ↔ BusEmpty cfg bus := by
  rw [List.eq_nil_iff_forall_not_mem]
  exact forall_congr' fun f => (not_congr mem_busFunctions).trans not_and

/-- Every host bus that an earlier host reaches is empty. -/
theorem unreached_iff {cfg : ConfigSpace} {count : Nat} (hcount : count ≤ 8) :
    Unreached (pciGraph cfg) (hostBuses count) ↔
      ∀ bus : UInt8, bus.toNat < count → ReachableFrom cfg bus.toNat bus → BusEmpty cfg bus := by
  rw [Unreached, hostBuses, List.pairwise_map, List.pairwise_iff_getElem]
  simp only [List.length_range, List.getElem_range]
  constructor
  · intro h bus hbus hreach
    obtain ⟨r, hr, hreach⟩ := reachableFrom_iff.mp hreach
    have hlt := mem_hostBuses.mp hr
    have hempty := h r.toNat bus.toNat (hlt.trans hbus) hbus hlt
    simp only [Nat.toUInt8_eq, UInt8.ofNat_toNat] at hempty
    exact busFunctions_eq_nil.mp (hempty hreach)
  · intro h i j hi hj hlt hreach
    have hval : j.toUInt8.toNat = j := Nat.mod_eq_of_lt (by omega)
    refine busFunctions_eq_nil.mpr (h j.toUInt8 (by rw [hval]; exact hj) ?_)
    refine reachableFrom_iff.mpr ⟨i.toUInt8, List.mem_map_of_mem (List.mem_range.mpr ?_), hreach⟩
    rw [hval]
    exact hlt

/-! ## A complete scan -/

/-- The scan succeeds and creates exactly one directory for every function that
is there on a bus behind the host controllers. -/
def ScansCompletely (cfg : ConfigSpace) (beyond depth : Nat) (pci : PciRoot) : Prop :=
  ∃ functions : List PciFunction,
    pciScan cfg beyond depth pci = some (some (functions.map (dirOf cfg beyond)), RET_T_OK) ∧
    functions.Nodup ∧
    ((functions.map (dirOf cfg beyond)).map PciDir.name).Nodup ∧
    ∀ f, f ∈ functions ↔ ReachableFrom cfg (hostCount cfg) f.bus ∧ Present cfg f

/-- The loop over the hosts, as walks from one host bus after another. -/
theorem pciScan_walks (cfg : ConfigSpace) (beyond depth : Nat) (pci : PciRoot)
    (hmulti : pciGetHeaderType cfg 0 0 0 &&& PCI_HDR_IS_MULTIFUNCTION ≠ 0) :
    pciScan cfg beyond depth pci =
      (forEach (walk (pciGraph cfg) depth) (hostBuses (hostCount cfg)) []).map
        fun r => (some (r.1.map (dirOf cfg beyond)), r.2) := by
  have hloop : forEach (pciScanBus cfg beyond depth) (hostBuses (hostCount cfg)) [] =
      (forEach (walk (pciGraph cfg) depth) (hostBuses (hostCount cfg)) []).map
        fun r => (r.1.map (dirOf cfg beyond), r.2) :=
    forEach_map (fun bus _ seen => pciScanBus_eq cfg beyond depth bus seen) []
  rw [pciScan_eq cfg beyond depth pci hmulti, hostLoop_eq, takeWhile_functionNumbers, hloop,
    Option.map_map]
  rfl

/-- The scan of several host controllers is complete if and only if every host
bus that an earlier host reaches over bridges is empty. -/
theorem pciScan_complete_iff (cfg : ConfigSpace) (beyond : Nat) {depth : Nat}
    (hdepth : PCI_BUS_NUM < depth) (pci : PciRoot)
    (hmulti : pciGetHeaderType cfg 0 0 0 &&& PCI_HDR_IS_MULTIFUNCTION ≠ 0) :
    ScansCompletely cfg beyond depth pci ↔
      ∀ bus : UInt8, bus.toNat < hostCount cfg → ReachableFrom cfg bus.toNat bus →
        BusEmpty cfg bus := by
  rw [← unreached_iff (hostCount_le cfg)]
  obtain ⟨seen, ok, hwalk, hseen, hok⟩ := forEach_walk_empty (g := pciGraph cfg) mem_allBuses
    (by rw [allBuses, List.length_map, List.length_range]; exact hdepth) (hostBuses (hostCount cfg))
  have hscan := pciScan_walks cfg beyond depth pci hmulti
  rw [hwalk, Option.map_some] at hscan
  rw [← hok]
  constructor
  · rintro ⟨functions, hcomplete, -⟩
    rw [hscan] at hcomplete
    exact congrArg Prod.snd (Option.some.inj hcomplete)
  · rintro rfl
    obtain ⟨hnodup, hmem⟩ := hseen rfl
    refine ⟨seen, hscan, hnodup, ?_, fun f => ?_⟩
    · rw [List.map_map]
      exact List.Nodup.map (dirName_injective cfg beyond) hnodup
    · rw [hmem f, ← reachableFrom_iff]
      constructor
      · rintro ⟨hitem, hreach⟩
        exact ⟨hreach, (mem_busFunctions.mp hitem).2⟩
      · rintro ⟨hreach, hpresent⟩
        exact ⟨mem_busFunctions.mpr ⟨rfl, hpresent⟩, hreach⟩

/-- Two host controllers, each with a host bridge on its bus; function 1 of 0:0 is also
the bridge to bus 1. -/
def twoHosts : ConfigSpace := fun addr =>
  if addr = 0x80000000 then 0x12378086
  else if addr = 0x8000000C then 0x00800000
  else if addr = 0x80000100 then 0x71908086
  else if addr = 0x80000108 then 0x06040000
  else if addr = 0x80000118 then 0x00010100
  else if addr = 0x80010000 then 0x12378086
  else 0xFFFFFFFF

theorem pciScan_complete_iff_twoHosts :
    ScansCompletely twoHosts 0 257 none ↔
      ∀ bus : UInt8, bus.toNat < hostCount twoHosts → ReachableFrom twoHosts bus.toNat bus →
        BusEmpty twoHosts bus :=
  pciScan_complete_iff twoHosts 0 (by decide) none (by decide +kernel)

/-- Bus 1 is scanned behind the bridge, and then again as the bus of the second host. -/
theorem pciScan_twoHosts :
    hostCount twoHosts = 2 ∧ pciGetHeaderType twoHosts 0 0 0 &&& PCI_HDR_IS_MULTIFUNCTION ≠ 0 ∧
      (pciScan twoHosts 0 257 none).map Prod.snd = some RET_T_NOK ∧
      ¬ ScansCompletely twoHosts 0 257 none := by
  have hfails : (pciScan twoHosts 0 257 none).map Prod.snd = some RET_T_NOK := by decide +kernel
  refine ⟨by decide +kernel, by decide +kernel, hfails, ?_⟩
  rintro ⟨functions, hcomplete, -⟩
  rw [hcomplete] at hfails
  exact absurd (show RET_T_OK = RET_T_NOK from Option.some.inj hfails) (by decide)

end TalOS
