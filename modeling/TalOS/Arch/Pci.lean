-- SUMMARY: The walk over the PCI buses and the directories it creates.
import Mathlib.Data.List.Nodup
import TalOS.Lib.Walk
import TalOS.Libk.Rendering

/-!
# PCI scan

`pci_scanBus` visits the functions of a bus and goes on to the bus behind every
PCI-to-PCI bridge. There is no set of visited buses: what ends a walk over a
cycle is that the directory of a function cannot be created twice. The
configuration space answers every read with a fixed value; `/sys/device/pci` is
the list of the directories in it, and creating one fails only for a name that
exists.
-/

open Walk

namespace TalOS

def PCI_ENABLE_BIT : UInt32 := 0x80000000
def PCI_HDR_IS_MULTIFUNCTION : UInt8 := 0x80
def PCI_BRIDGE_BASECLASS : UInt8 := 0x06
def PCI_TO_PCI_BRIDGE_SUBCLASS : UInt8 := 0x04
def PCI_NOT_VALID_VENDOR_ID : UInt16 := 0xFFFF

def PCI_HDR_VENDORID_OFFSET : UInt8 := 0x00
def PCI_HDR_DEVICEID_OFFSET : UInt8 := 0x02
def PCI_HDR_SUBCLASS_OFFSET : UInt8 := 0x0A
def PCI_HDR_BASECLASS_OFFSET : UInt8 := 0x0B
def PCI_HDR_TYPE_OFFSET : UInt8 := 0x0E
def PCI_HDR_01_SEC_BUS_OFFSET : UInt8 := 0x19

def PCI_BUS_NUM : Nat := 256

def RET_T_OK : Bool := true
def RET_T_NOK : Bool := false

/-! ## Configuration space -/

/-- What `PCI_CONFIG_DATA` reads once an address is in `PCI_CONFIG_ADDRESS`. -/
abbrev ConfigSpace := UInt32 → UInt32

/-- `pci_read32` -/
def pciRead32 (cfg : ConfigSpace) (bus dev func regNum : UInt8) : UInt32 :=
  let addr := bus.toUInt32 <<< 16 ||| dev.toUInt32 <<< 11 ||| func.toUInt32 <<< 8 |||
    (regNum.toUInt32 &&& 0xFC) ||| PCI_ENABLE_BIT
  cfg addr >>> (((regNum.toUInt32 &&& 0x03) <<< 3) &&& 0xFF)

/-- `pci_getHeaderType` -/
def pciGetHeaderType (cfg : ConfigSpace) (bus dev func : UInt8) : UInt8 :=
  (pciRead32 cfg bus dev func PCI_HDR_TYPE_OFFSET).toUInt8

/-- `pci_getVendorID` -/
def pciGetVendorID (cfg : ConfigSpace) (bus dev func : UInt8) : UInt16 :=
  (pciRead32 cfg bus dev func PCI_HDR_VENDORID_OFFSET).toUInt16

/-- `pci_getBaseClass` -/
def pciGetBaseClass (cfg : ConfigSpace) (bus dev func : UInt8) : UInt8 :=
  (pciRead32 cfg bus dev func PCI_HDR_BASECLASS_OFFSET).toUInt8

/-- `pci_getSubClass` -/
def pciGetSubClass (cfg : ConfigSpace) (bus dev func : UInt8) : UInt8 :=
  (pciRead32 cfg bus dev func PCI_HDR_SUBCLASS_OFFSET).toUInt8

/-- `pci_hdr_01_getSecondaryBus` -/
def pciGetSecondaryBus (cfg : ConfigSpace) (bus dev func : UInt8) : UInt8 :=
  (pciRead32 cfg bus dev func PCI_HDR_01_SEC_BUS_OFFSET).toUInt8

/-! ## Directories -/

/-- What is in a file of a function's directory: bytes written at creation, or
the place in the configuration space that its read and write functions go to. -/
inductive PciFileData where
  | bytes (content : List UInt8)
  | confArea (bus device function : UInt8)
deriving Repr, DecidableEq

structure PciFile where
  name : List UInt8
  data : PciFileData
deriving Repr, DecidableEq

structure PciDir where
  name : List UInt8
  files : List PciFile
deriving Repr, DecidableEq

/-- Create a file in the directory of that name; none if it is not there or has
such a file. -/
def createFile (dirName : List UInt8) (file : PciFile) : List PciDir → Option (List PciDir)
  | [] => none
  | d :: ds =>
    if d.name = dirName then
      if file.name ∈ d.files.map PciFile.name then none
      else some ({ d with files := d.files ++ [file] } :: ds)
    else (createFile dirName file ds).map (d :: ·)

/-- Two bytes in memory order. -/
def uint16Bytes (v : UInt16) : List UInt8 := [v.toUInt8, (v >>> 8).toUInt8]

/-- The files of `pci_ramfs_addFiles`, in order; `subsystem_vendor` gets the
device id. -/
def pciFiles (cfg : ConfigSpace) (bus device function : UInt8) : List PciFile :=
  let vendorID := pciGetVendorID cfg bus device function
  let deviceID := (pciRead32 cfg bus device function PCI_HDR_DEVICEID_OFFSET).toUInt16
  [⟨[0x76, 0x65, 0x6e, 0x64, 0x6f, 0x72], .bytes (uint16Bytes vendorID)⟩,
    ⟨[0x64, 0x65, 0x76, 0x69, 0x63, 0x65], .bytes (uint16Bytes deviceID)⟩,
    ⟨[0x73, 0x75, 0x62, 0x73, 0x79, 0x73, 0x74, 0x65, 0x6d, 0x5f, 0x76, 0x65, 0x6e, 0x64, 0x6f,
      0x72], .bytes (uint16Bytes deviceID)⟩,
    ⟨[0x63, 0x6f, 0x6e, 0x66, 0x69, 0x67], .confArea bus device function⟩]

/-- `pci_ramfs_addFiles` -/
def pciRamfsAddFiles (cfg : ConfigSpace) (pciPeriphDir : List UInt8) (bus device function : UInt8)
    (fs : List PciDir) : Option (List PciDir × Bool) :=
  forEach
    (fun file fs =>
      match createFile pciPeriphDir file fs with
      | none => some (fs, RET_T_NOK)
      | some fs => some (fs, RET_T_OK))
    (pciFiles cfg bus device function) fs

/-- `"0000:%02u:%02u.%02u"` -/
def PCI_DEV_NAME_FORMAT : List UInt8 :=
  [0x30, 0x30, 0x30, 0x30, 0x3a, 0x25, 0x30, 0x32, 0x75, 0x3a, 0x25, 0x30, 0x32, 0x75, 0x2e, 0x25,
    0x30, 0x32, 0x75]

/-- The name `sprintf` makes for a function, as an unbounded string. -/
def pciDevName (beyond : Nat) (bus device function : UInt8) : List UInt8 :=
  (rendering beyond PCI_DEV_NAME_FORMAT
    [.word bus.toUInt32, .word device.toUInt32, .word function.toUInt32]).getD []

/-- `pci_ramfs_addnode` -/
def pciRamfsAddnode (cfg : ConfigSpace) (beyond : Nat) (bus device function : UInt8)
    (fs : List PciDir) : Option (List PciDir × Bool) :=
  let name := pciDevName beyond bus device function
  if name ∈ fs.map PciDir.name then some (fs, RET_T_NOK)
  else pciRamfsAddFiles cfg name bus device function (fs ++ [⟨name, []⟩])

/-! ## The recursive scan -/

/-- `pci_scanFunction`, over the scan of the bus behind a bridge. -/
def pciScanFunction (cfg : ConfigSpace) (beyond : Nat)
    (pciScanBus : UInt8 → List PciDir → Option (List PciDir × Bool)) (bus dev function : UInt8)
    (fs : List PciDir) : Option (List PciDir × Bool) :=
  if pciGetVendorID cfg bus dev function ≠ PCI_NOT_VALID_VENDOR_ID then
    (pciRamfsAddnode cfg beyond bus dev function fs).bind fun r =>
      if r.2 = RET_T_NOK then some (r.1, RET_T_NOK)
      else if pciGetBaseClass cfg bus dev function = PCI_BRIDGE_BASECLASS ∧
          pciGetSubClass cfg bus dev function = PCI_TO_PCI_BRIDGE_SUBCLASS then
        (pciScanBus (pciGetSecondaryBus cfg bus dev function) r.1).map fun q => (q.1, RET_T_OK)
      else some (r.1, RET_T_OK)
  else some (fs, RET_T_OK)

/-- The functions of a device after the first one: `PCI_FUNC_PER_DEV` is 8. -/
def otherFunctions : List UInt8 := [1, 2, 3, 4, 5, 6, 7]

/-- `pci_scanDevice` -/
def pciScanDevice (cfg : ConfigSpace) (beyond : Nat)
    (pciScanBus : UInt8 → List PciDir → Option (List PciDir × Bool)) (bus dev : UInt8)
    (fs : List PciDir) : Option (List PciDir × Bool) :=
  if pciGetVendorID cfg bus dev 0 ≠ PCI_NOT_VALID_VENDOR_ID then
    (pciScanFunction cfg beyond pciScanBus bus dev 0 fs).bind fun r =>
      if r.2 ≠ RET_T_OK then some (r.1, RET_T_NOK)
      else if pciGetHeaderType cfg bus dev 0 &&& PCI_HDR_IS_MULTIFUNCTION ≠ 0 then
        forEach (pciScanFunction cfg beyond pciScanBus bus dev) otherFunctions r.1
      else some (r.1, RET_T_OK)
  else some (fs, RET_T_OK)

/-- The device numbers of a bus: `PCI_DEV_PER_BUS` is 32. -/
def deviceNumbers : List UInt8 := (List.range 32).map Nat.toUInt8

/-- `pci_scanBus`, nested at most `depth` deep. -/
def pciScanBus (cfg : ConfigSpace) (beyond : Nat) :
    Nat → UInt8 → List PciDir → Option (List PciDir × Bool)
  | 0, _, _ => none
  | depth + 1, bus, fs =>
    forEach (pciScanDevice cfg beyond (pciScanBus cfg beyond depth) bus) deviceNumbers fs

/-! ## Directory names -/

/-- One field of a directory name: `%02u`. -/
def nameField (v : UInt8) : List UInt8 := numberText (wordText .unsigned v.toUInt32) 0 2 1

/-- The number a text of digits stands for. -/
def fieldValue (text : List UInt8) : Nat :=
  text.foldl (fun value c => value * 10 + (c.toNat - ASCII_0.toNat)) 0

/-- One look at every byte. -/
theorem nameField_byte : ((List.range 256).all fun n =>
    (nameField n.toUInt8).length.ble 3 && (fieldValue (nameField n.toUInt8)).beq n &&
      (nameField n.toUInt8).all isDigit) = true := by
  decide +kernel

/-- A field is a short text of digits that tells its number. -/
theorem nameField_spec (v : UInt8) :
    (nameField v).length ≤ 3 ∧ fieldValue (nameField v) = v.toNat ∧
      ∀ c ∈ nameField v, isDigit c = true := by
  have h := List.all_eq_true.mp nameField_byte v.toNat (List.mem_range.mpr v.toNat_lt)
  have hv : v.toNat.toUInt8 = v := UInt8.ofNat_toNat
  rw [hv, Bool.and_eq_true, Bool.and_eq_true] at h
  obtain ⟨⟨hlength, hvalue⟩, hdigits⟩ := h
  exact ⟨Nat.le_of_ble_eq_true hlength, Nat.eq_of_beq_eq_true hvalue, List.all_eq_true.mp hdigits⟩

theorem nameField_injective {v v' : UInt8} (h : nameField v = nameField v') : v = v' := by
  have hvalue := congrArg fieldValue h
  rw [(nameField_spec v).2.1, (nameField_spec v').2.1] at hvalue
  exact UInt8.toNat_inj.mp hvalue

/-- The formatter's turns over the format of a directory name. -/
theorem rendering_nameFields (beyond : Nat) (bus device function : UInt8) :
    rendering beyond PCI_DEV_NAME_FORMAT
        [.word bus.toUInt32, .word device.toUInt32, .word function.toUInt32] =
      some ([0x30, 0x30, 0x30, 0x30, 0x3a] ++ (nameField bus ++ 0x3a :: (nameField device ++
        0x2e :: nameField function))) := by
  have htext : textLoop beyond (PCI_DEV_NAME_FORMAT.length + 1) ⟨PCI_DEV_NAME_FORMAT,
      [.word bus.toUInt32, .word device.toUInt32, .word function.toUInt32]⟩ =
      some ([0x30, 0x30, 0x30, 0x30, 0x3a] ++ (nameField bus ++ ([0x3a] ++ (nameField device ++
        ([0x2e] ++ (nameField function ++ [])))))) := rfl
  rw [rendering_of_textLoop htext]
  · simp only [List.append_nil, List.singleton_append]
  · have hb := (nameField_spec bus).1
    have hd := (nameField_spec device).1
    have hf := (nameField_spec function).1
    simp only [List.length_append, List.length_cons, List.length_nil, INT_MAX]
    omega

theorem pciDevName_eq (beyond : Nat) (bus device function : UInt8) :
    pciDevName beyond bus device function =
      [0x30, 0x30, 0x30, 0x30, 0x3a] ++ (nameField bus ++ 0x3a :: (nameField device ++
        0x2e :: nameField function)) := by
  rw [pciDevName, rendering_nameFields]
  rfl

/-- Digits up to a separator can be told from what follows. -/
theorem split_at_separator {sep : UInt8} (hsep : isDigit sep = false) {rest rest' : List UInt8} :
    ∀ {ds ds' : List UInt8}, (∀ c ∈ ds, isDigit c = true) → (∀ c ∈ ds', isDigit c = true) →
      ds ++ sep :: rest = ds' ++ sep :: rest' → ds = ds' ∧ rest = rest' := by
  intro ds
  induction ds with
  | nil =>
    intro ds' _ hds' h
    cases ds' with
    | nil => exact ⟨rfl, (List.cons.inj h).2⟩
    | cons c cs =>
      have hc := hds' c List.mem_cons_self
      rw [← (List.cons.inj h).1, hsep] at hc
      cases hc
  | cons d ds ih =>
    intro ds' hds hds' h
    cases ds' with
    | nil =>
      have hd := hds d List.mem_cons_self
      rw [(List.cons.inj h).1, hsep] at hd
      cases hd
    | cons c cs =>
      obtain ⟨rfl, htail⟩ := List.cons.inj h
      obtain ⟨rfl, hrest⟩ := ih (fun c hc => hds c (List.mem_cons_of_mem _ hc))
        (fun c hc => hds' c (List.mem_cons_of_mem _ hc)) htail
      exact ⟨rfl, hrest⟩

/-- Different functions have different directory names. -/
theorem pciDevName_injective {beyond : Nat} {bus device function bus' device' function' : UInt8}
    (h : pciDevName beyond bus device function = pciDevName beyond bus' device' function') :
    bus = bus' ∧ device = device' ∧ function = function' := by
  rw [pciDevName_eq, pciDevName_eq, List.append_cancel_left_eq] at h
  obtain ⟨hbus, h⟩ :=
    split_at_separator (by decide) (nameField_spec bus).2.2 (nameField_spec bus').2.2 h
  obtain ⟨hdevice, hfunction⟩ :=
    split_at_separator (by decide) (nameField_spec device).2.2 (nameField_spec device').2.2 h
  exact ⟨nameField_injective hbus, nameField_injective hdevice, nameField_injective hfunction⟩

/-! ## Creating a directory -/

/-- A function of the PCI configuration space. -/
structure PciFunction where
  bus : UInt8
  device : UInt8
  function : UInt8
deriving Repr, DecidableEq

/-- The directory of a function with all its files. -/
def dirOf (cfg : ConfigSpace) (beyond : Nat) (f : PciFunction) : PciDir :=
  ⟨pciDevName beyond f.bus f.device f.function, pciFiles cfg f.bus f.device f.function⟩

theorem dirName_injective (cfg : ConfigSpace) (beyond : Nat) :
    Function.Injective (PciDir.name ∘ dirOf cfg beyond) := by
  intro f f' hname
  dsimp only [Function.comp_apply, dirOf] at hname
  obtain ⟨hbus, hdevice, hfunction⟩ := pciDevName_injective hname
  cases f
  cases f'
  simp only [PciFunction.mk.injEq]
  exact ⟨hbus, hdevice, hfunction⟩

theorem mem_dirNames_iff {cfg : ConfigSpace} {beyond : Nat} {f : PciFunction}
    {seen : List PciFunction} :
    (dirOf cfg beyond f).name ∈ (seen.map (dirOf cfg beyond)).map PciDir.name ↔ f ∈ seen := by
  rw [List.map_map]
  exact List.mem_map_of_injective (dirName_injective cfg beyond)

theorem createFile_last {dirName : List UInt8} {file : PciFile} {files : List PciFile}
    {ds : List PciDir} (hname : dirName ∉ ds.map PciDir.name)
    (hfile : file.name ∉ files.map PciFile.name) :
    createFile dirName file (ds ++ [⟨dirName, files⟩]) =
      some (ds ++ [⟨dirName, files ++ [file]⟩]) := by
  induction ds with
  | nil => rw [List.nil_append, createFile, if_pos rfl, if_neg hfile]; rfl
  | cons d ds ih =>
    rw [List.map_cons, List.mem_cons, not_or] at hname
    rw [List.cons_append, createFile, if_neg (Ne.symm hname.1), ih hname.2]
    rfl

/-- In a fresh directory every file can be created. -/
theorem pciRamfsAddFiles_fresh (cfg : ConfigSpace) {dirName : List UInt8}
    (bus device function : UInt8) {ds : List PciDir} (hname : dirName ∉ ds.map PciDir.name) :
    pciRamfsAddFiles cfg dirName bus device function (ds ++ [⟨dirName, []⟩]) =
      some (ds ++ [⟨dirName, pciFiles cfg bus device function⟩], RET_T_OK) := by
  have hloop : ∀ (rest past : List PciFile), ((past ++ rest).map PciFile.name).Nodup →
      forEach
        (fun file fs =>
          match createFile dirName file fs with
          | none => some (fs, RET_T_NOK)
          | some fs => some (fs, RET_T_OK))
        rest (ds ++ [⟨dirName, past⟩]) = some (ds ++ [⟨dirName, past ++ rest⟩], RET_T_OK) := by
    intro rest
    induction rest with
    | nil =>
      intro past _
      rw [List.append_nil]
      rfl
    | cons file rest ih =>
      intro past hnodup
      have hfile : file.name ∉ past.map PciFile.name := by
        rw [List.map_append, List.map_cons, List.nodup_append] at hnodup
        exact fun hmem => hnodup.2.2 _ hmem _ List.mem_cons_self rfl
      have hsplit : past ++ file :: rest = (past ++ [file]) ++ rest := by
        rw [List.append_assoc]
        rfl
      rw [forEach, createFile_last hname hfile]
      dsimp only [Option.bind_some]
      rw [if_pos (show RET_T_OK = true from rfl), ih _ (hsplit ▸ hnodup), hsplit]
  -- The names of the files do not depend on the function.
  have hnames : (pciFiles cfg bus device function).map PciFile.name =
      (pciFiles (fun _ => 0) 0 0 0).map PciFile.name := rfl
  have hnodup : (([] ++ pciFiles cfg bus device function).map PciFile.name).Nodup := by
    rw [List.nil_append, hnames]
    decide
  rw [pciRamfsAddFiles, hloop _ [] hnodup, List.nil_append]

/-- `pci_ramfs_addnode` fails for a function that has its directory already. -/
theorem pciRamfsAddnode_eq (cfg : ConfigSpace) (beyond : Nat) (f : PciFunction)
    (seen : List PciFunction) :
    pciRamfsAddnode cfg beyond f.bus f.device f.function (seen.map (dirOf cfg beyond)) =
      if f ∈ seen then some (seen.map (dirOf cfg beyond), RET_T_NOK)
      else some ((seen ++ [f]).map (dirOf cfg beyond), RET_T_OK) := by
  have hname : pciDevName beyond f.bus f.device f.function = (dirOf cfg beyond f).name := by
    simp only [dirOf]
  rw [pciRamfsAddnode, hname]
  by_cases hf : f ∈ seen
  · rw [if_pos hf, if_pos (mem_dirNames_iff.mpr hf)]
  · have hfresh : (dirOf cfg beyond f).name ∉ (seen.map (dirOf cfg beyond)).map PciDir.name :=
      mt mem_dirNames_iff.mp hf
    rw [if_neg hf, if_neg hfresh, pciRamfsAddFiles_fresh cfg _ _ _ hfresh, List.map_append]
    simp only [dirOf, List.map_cons, List.map_nil]

/-! ## Buses, functions and bridges -/

/-- Function 0 is there when its vendor is valid; the others also need a
multi-function header in function 0. -/
def Present (cfg : ConfigSpace) (f : PciFunction) : Prop :=
  f.device < 32 ∧ f.function < 8 ∧
    pciGetVendorID cfg f.bus f.device f.function ≠ PCI_NOT_VALID_VENDOR_ID ∧
    (f.function ≠ 0 →
      pciGetVendorID cfg f.bus f.device 0 ≠ PCI_NOT_VALID_VENDOR_ID ∧
        pciGetHeaderType cfg f.bus f.device 0 &&& PCI_HDR_IS_MULTIFUNCTION ≠ 0)

/-- A PCI-to-PCI bridge. -/
def IsBridge (cfg : ConfigSpace) (f : PciFunction) : Prop :=
  pciGetBaseClass cfg f.bus f.device f.function = PCI_BRIDGE_BASECLASS ∧
    pciGetSubClass cfg f.bus f.device f.function = PCI_TO_PCI_BRIDGE_SUBCLASS

instance (cfg : ConfigSpace) (f : PciFunction) : Decidable (IsBridge cfg f) := by
  unfold IsBridge
  infer_instance

def secondaryBus (cfg : ConfigSpace) (f : PciFunction) : UInt8 :=
  pciGetSecondaryBus cfg f.bus f.device f.function

/-- The least set of buses with bus 0 and the bus behind every bridge that is
present on one of them. -/
inductive Reachable (cfg : ConfigSpace) : UInt8 → Prop
  | root : Reachable cfg 0
  | bridge {f : PciFunction} (hbus : Reachable cfg f.bus) (hpresent : Present cfg f)
      (hbridge : IsBridge cfg f) : Reachable cfg (secondaryBus cfg f)

/-- The functions that the scan of a device comes to, in order. -/
def deviceFunctions (cfg : ConfigSpace) (bus dev : UInt8) : List PciFunction :=
  if pciGetVendorID cfg bus dev 0 ≠ PCI_NOT_VALID_VENDOR_ID then
    ⟨bus, dev, 0⟩ ::
      if pciGetHeaderType cfg bus dev 0 &&& PCI_HDR_IS_MULTIFUNCTION ≠ 0 then
        (otherFunctions.filter fun function =>
          pciGetVendorID cfg bus dev function ≠ PCI_NOT_VALID_VENDOR_ID).map (⟨bus, dev, ·⟩)
      else []
  else []

/-- The functions that the scan of a bus comes to, in order. -/
def busFunctions (cfg : ConfigSpace) (bus : UInt8) : List PciFunction :=
  deviceNumbers.flatMap (deviceFunctions cfg bus)

theorem mem_deviceNumbers {dev : UInt8} : dev ∈ deviceNumbers ↔ dev < 32 := by
  have hlt : dev < 32 ↔ dev.toNat < 32 := UInt8.lt_iff_toNat_lt
  rw [deviceNumbers, List.mem_map, hlt]
  constructor
  · rintro ⟨n, hn, rfl⟩
    have hn' := List.mem_range.mp hn
    exact Nat.lt_of_le_of_lt (Nat.mod_le n _) hn'
  · exact fun h => ⟨dev.toNat, List.mem_range.mpr h, by simp⟩

theorem mem_otherFunctions {function : UInt8} :
    function ∈ otherFunctions ↔ function < 8 ∧ function ≠ 0 := by
  have h : ∀ n < 256, n.toUInt8 ∈ otherFunctions ↔ n.toUInt8 < 8 ∧ n.toUInt8 ≠ 0 := by
    decide +kernel
  simpa using h function.toNat function.toNat_lt

theorem mem_deviceFunctions {cfg : ConfigSpace} {bus dev : UInt8} {f : PciFunction} :
    f ∈ deviceFunctions cfg bus dev ↔
      f.bus = bus ∧ f.device = dev ∧ f.function < 8 ∧
        pciGetVendorID cfg f.bus f.device f.function ≠ PCI_NOT_VALID_VENDOR_ID ∧
        (f.function ≠ 0 →
          pciGetVendorID cfg f.bus f.device 0 ≠ PCI_NOT_VALID_VENDOR_ID ∧
            pciGetHeaderType cfg f.bus f.device 0 &&& PCI_HDR_IS_MULTIFUNCTION ≠ 0) := by
  obtain ⟨fbus, fdev, function⟩ := f
  dsimp only
  constructor
  · intro h
    unfold deviceFunctions at h
    split at h
    case isFalse => cases h
    case isTrue hvendor =>
      rcases List.mem_cons.mp h with heq | hother
      · cases heq
        exact ⟨rfl, rfl, by decide, hvendor, fun hne => absurd rfl hne⟩
      · split at hother
        case isFalse => cases hother
        case isTrue hmulti =>
          obtain ⟨function', hmem, heq⟩ := List.mem_map.mp hother
          cases heq
          obtain ⟨hrange, hpresent⟩ := List.mem_filter.mp hmem
          exact ⟨rfl, rfl, (mem_otherFunctions.mp hrange).1, of_decide_eq_true hpresent,
            fun _ => ⟨hvendor, hmulti⟩⟩
  · rintro ⟨rfl, rfl, hlt, hvendor, hrest⟩
    unfold deviceFunctions
    by_cases hzero : function = 0
    · subst hzero
      rw [if_pos hvendor]
      exact List.mem_cons_self
    · obtain ⟨hvendor₀, hmulti⟩ := hrest hzero
      rw [if_pos hvendor₀, if_pos hmulti]
      refine List.mem_cons_of_mem _ (List.mem_map.mpr ⟨function, List.mem_filter.mpr ⟨?_, ?_⟩, rfl⟩)
      · exact mem_otherFunctions.mpr ⟨hlt, hzero⟩
      · exact decide_eq_true hvendor

theorem mem_busFunctions {cfg : ConfigSpace} {bus : UInt8} {f : PciFunction} :
    f ∈ busFunctions cfg bus ↔ f.bus = bus ∧ Present cfg f := by
  rw [busFunctions, List.mem_flatMap]
  constructor
  · rintro ⟨dev, hdev, hf⟩
    obtain ⟨hbus, rfl, hrest⟩ := mem_deviceFunctions.mp hf
    exact ⟨hbus, mem_deviceNumbers.mp hdev, hrest⟩
  · rintro ⟨hbus, hdev, hrest⟩
    exact ⟨f.device, mem_deviceNumbers.mpr hdev, mem_deviceFunctions.mpr ⟨hbus, rfl, hrest⟩⟩

theorem nodup_deviceFunctions (cfg : ConfigSpace) (bus dev : UInt8) :
    (deviceFunctions cfg bus dev).Nodup := by
  unfold deviceFunctions
  split
  case isFalse => exact List.nodup_nil
  case isTrue =>
    split
    case isFalse => exact List.nodup_singleton _
    case isTrue =>
      refine List.nodup_cons.mpr ⟨fun hmem => ?_, ?_⟩
      · obtain ⟨function, hfunction, heq⟩ := List.mem_map.mp hmem
        have hother := (mem_otherFunctions.mp (List.mem_filter.mp hfunction).1).2
        exact hother (congrArg PciFunction.function heq)
      · refine List.Nodup.map (fun a b hab => congrArg PciFunction.function hab) ?_
        exact List.Nodup.filter _ (by decide)

theorem nodup_busFunctions (cfg : ConfigSpace) (bus : UInt8) : (busFunctions cfg bus).Nodup := by
  refine List.nodup_flatMap.mpr ⟨fun dev _ => nodup_deviceFunctions cfg bus dev, ?_⟩
  have hnodup : deviceNumbers.Nodup := by decide +kernel
  refine List.Pairwise.imp ?_ hnodup
  intro dev dev' hne f hf hf'
  have hdev := (mem_deviceFunctions.mp hf).2.1
  have hdev' := (mem_deviceFunctions.mp hf').2.1
  exact hne (hdev.symm.trans hdev')

/-- The buses as a graph: the items of a bus are its functions, and a bridge
leads to the bus behind it. -/
def pciGraph (cfg : ConfigSpace) : Walk.Graph UInt8 PciFunction where
  items := busFunctions cfg
  child f := if IsBridge cfg f then some (secondaryBus cfg f) else none
  owner := PciFunction.bus
  owner_eq _ _ hf := (mem_busFunctions.mp hf).1
  nodup := nodup_busFunctions cfg

/-- One bus leads to another over a bridge that is present. -/
theorem edge_iff {cfg : ConfigSpace} {bus bus' : UInt8} :
    Edge (pciGraph cfg) bus bus' ↔
      ∃ f, f.bus = bus ∧ Present cfg f ∧ IsBridge cfg f ∧ secondaryBus cfg f = bus' := by
  constructor
  · rintro ⟨f, hf, hchild⟩
    obtain ⟨hbus, hpresent⟩ := mem_busFunctions.mp hf
    dsimp only [pciGraph] at hchild
    split at hchild
    case isTrue hbridge => exact ⟨f, hbus, hpresent, hbridge, Option.some.inj hchild⟩
    case isFalse => cases hchild
  · rintro ⟨f, hbus, hpresent, hbridge, hsecondary⟩
    exact ⟨f, mem_busFunctions.mpr ⟨hbus, hpresent⟩,
      (if_pos hbridge).trans (congrArg some hsecondary)⟩

theorem reach_iff {cfg : ConfigSpace} {bus : UInt8} :
    Reach (pciGraph cfg) 0 bus ↔ Reachable cfg bus := by
  constructor
  · intro h
    induction h with
    | refl => exact .root
    | tail _ hedge ih =>
      obtain ⟨f, rfl, hpresent, hbridge, rfl⟩ := edge_iff.mp hedge
      exact .bridge ih hpresent hbridge
  · intro h
    induction h with
    | root => exact .refl
    | bridge _ hpresent hbridge ih =>
      exact ih.tail (edge_iff.mpr ⟨_, rfl, hpresent, hbridge, rfl⟩)

/-! ## The scan as a walk -/

section Scan

variable {cfg : ConfigSpace} {beyond : Nat}
  {scan : UInt8 → List PciDir → Option (List PciDir × Bool)}

/-- Scanning a device is scanning its functions. -/
theorem pciScanDevice_eq (bus dev : UInt8) (fs : List PciDir) :
    pciScanDevice cfg beyond scan bus dev fs =
      forEach (fun f => pciScanFunction cfg beyond scan f.bus f.device f.function)
        (deviceFunctions cfg bus dev) fs := by
  unfold pciScanDevice deviceFunctions
  split
  case isFalse => rfl
  case isTrue =>
    refine forEach_cons (fun f : PciFunction => pciScanFunction cfg beyond scan f.bus f.device f.function)
      ⟨bus, dev, 0⟩ (fun fs =>
        if pciGetHeaderType cfg bus dev 0 &&& PCI_HDR_IS_MULTIFUNCTION ≠ 0 then
          forEach (pciScanFunction cfg beyond scan bus dev) otherFunctions fs
        else some (fs, RET_T_OK)) (fun fs => ?_) fs
    split
    case isFalse => rfl
    case isTrue =>
      rw [forEach_comp, ← forEach_filter]
      -- An absent function is passed over.
      have hskip : pciScanFunction cfg beyond scan bus dev = fun function fs =>
          if decide (pciGetVendorID cfg bus dev function ≠ PCI_NOT_VALID_VENDOR_ID) = true then
            pciScanFunction cfg beyond scan bus dev function fs
          else some (fs, true) := by
        funext function fs
        split
        case isTrue => rfl
        case isFalse habsent =>
          exact if_neg fun hvendor => habsent (decide_eq_true hvendor)
      rw [← hskip]

/-- Scanning a function that is there is visiting it: its directory is created
or found, and the outcome of the scan behind a bridge is ignored. -/
theorem pciScanFunction_eq {walk : UInt8 → List PciFunction → Option (List PciFunction × Bool)}
    (hscan : ∀ bus seen, scan bus (seen.map (dirOf cfg beyond)) =
      (walk bus seen).map fun r => (r.1.map (dirOf cfg beyond), r.2))
    {f : PciFunction}
    (hvendor : pciGetVendorID cfg f.bus f.device f.function ≠ PCI_NOT_VALID_VENDOR_ID)
    (seen : List PciFunction) :
    pciScanFunction cfg beyond scan f.bus f.device f.function (seen.map (dirOf cfg beyond)) =
      (visit (pciGraph cfg) walk f seen).map fun r => (r.1.map (dirOf cfg beyond), r.2) := by
  rw [pciScanFunction, if_pos hvendor, pciRamfsAddnode_eq, visit]
  by_cases hmem : f ∈ seen
  · rw [if_pos hmem, if_pos hmem]
    rfl
  · rw [if_neg hmem, if_neg hmem]
    dsimp only [Option.bind_some]
    rw [if_neg (by decide)]
    by_cases hbridge : IsBridge cfg f
    · have hchild : (pciGraph cfg).child f = some (secondaryBus cfg f) := if_pos hbridge
      rw [if_pos (show _ ∧ _ from hbridge), hchild]
      dsimp only
      rw [← secondaryBus, hscan, Option.map_map, Option.map_map]
      rfl
    · have hchild : (pciGraph cfg).child f = none := if_neg hbridge
      rw [if_neg (show ¬ (_ ∧ _) from hbridge), hchild]
      rfl

/-- The scan of a bus is the walk over the graph of buses, with directories in
place of functions. -/
theorem pciScanBus_eq (cfg : ConfigSpace) (beyond depth : Nat) (bus : UInt8)
    (seen : List PciFunction) :
    pciScanBus cfg beyond depth bus (seen.map (dirOf cfg beyond)) =
      (walk (pciGraph cfg) depth bus seen).map fun r => (r.1.map (dirOf cfg beyond), r.2) := by
  induction depth generalizing bus seen with
  | zero => rfl
  | succ depth ih =>
    rw [pciScanBus, walk, forEach_flatMap (pciScanDevice_eq bus)]
    exact forEach_map (fun f hf seen =>
      pciScanFunction_eq ih (mem_busFunctions.mp hf).2.2.2.1 seen) seen

end Scan

/-- The buses a bridge can name. -/
def allBuses : List UInt8 := (List.range 256).map Nat.toUInt8

theorem mem_allBuses (bus : UInt8) : bus ∈ allBuses :=
  List.mem_map.mpr ⟨bus.toNat, List.mem_range.mpr bus.toNat_lt, by simp⟩

/-- The scan of bus 0 ends and creates exactly one directory for every function
on a reachable bus. -/
theorem pciScanBus_enumerates (cfg : ConfigSpace) (beyond : Nat) {depth : Nat}
    (hdepth : PCI_BUS_NUM < depth) :
    ∃ functions : List PciFunction,
      pciScanBus cfg beyond depth 0 [] = some (functions.map (dirOf cfg beyond), RET_T_OK) ∧
      functions.Nodup ∧
      ((functions.map (dirOf cfg beyond)).map PciDir.name).Nodup ∧
      ∀ f, f ∈ functions ↔ Reachable cfg f.bus ∧ Present cfg f := by
  have hlength : allBuses.length < depth := by
    rw [allBuses, List.length_map, List.length_range]
    exact hdepth
  obtain ⟨seen, hwalk, hnodup, hseen⟩ := walk_empty (g := pciGraph cfg) mem_allBuses hlength 0
  refine ⟨seen, ?_, hnodup, ?_, fun f => ?_⟩
  · have hscan := pciScanBus_eq cfg beyond depth 0 []
    rw [hwalk] at hscan
    exact hscan
  · rw [List.map_map]
    exact List.Nodup.map (dirName_injective cfg beyond) hnodup
  · rw [hseen f, reach_iff]
    constructor
    · exact fun ⟨hitem, hreach⟩ => ⟨hreach, (mem_busFunctions.mp hitem).2⟩
    · exact fun ⟨hreach, hpresent⟩ => ⟨mem_busFunctions.mpr ⟨rfl, hpresent⟩, hreach⟩

/-- A configuration space without any device. -/
theorem pciScanBus_enumerates_nothing :
    ∃ functions : List PciFunction,
      pciScanBus (fun _ => 0xFFFFFFFF) 0 257 0 [] =
        some (functions.map (dirOf (fun _ => 0xFFFFFFFF) 0), RET_T_OK) ∧
      functions.Nodup ∧
      ((functions.map (dirOf (fun _ => 0xFFFFFFFF) 0)).map PciDir.name).Nodup ∧
      ∀ f, f ∈ functions ↔
        Reachable (fun _ => 0xFFFFFFFF) f.bus ∧ Present (fun _ => 0xFFFFFFFF) f :=
  pciScanBus_enumerates (fun _ => 0xFFFFFFFF) 0 (by decide)

end TalOS
