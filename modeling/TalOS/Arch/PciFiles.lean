-- SUMMARY: The files of a PCI function as nodes of ramfs, and whether they agree with its configuration space.
import TalOS.Arch.PciConfig
import TalOS.Arch.PciNames
import TalOS.Coresys.FreshFiles

/-!
# Files of a PCI function

`pci_ramfs_addnode` makes a directory for a function and four files in it. Three of them
get an identifier that is written once, as the contents of a file; reads of the fourth,
`config`, go to the configuration space. Its node has the callbacks of the driver, and
where its contents would be it has the place of the function.
-/

open MachineInt

namespace TalOS

/-- Behind `sizeof(PCI_common_header)`, six base address registers and the CIS pointer. -/
def PCI_HDR_00_SUBSYS_VENDOR_OFFSET : UInt8 := 0x2C

/-- `"vendor"` -/
def VENDOR_NAME : List UInt8 := [0x76, 0x65, 0x6e, 0x64, 0x6f, 0x72]

/-- `"device"` -/
def DEVICE_NAME : List UInt8 := [0x64, 0x65, 0x76, 0x69, 0x63, 0x65]

/-- `"subsystem_vendor"` -/
def SUBSYSTEM_VENDOR_NAME : List UInt8 :=
  [0x73, 0x75, 0x62, 0x73, 0x79, 0x73, 0x74, 0x65, 0x6d, 0x5f, 0x76, 0x65, 0x6e, 0x64, 0x6f, 0x72]

/-- `"config"` -/
def CONFIG_NAME : List UInt8 := [0x63, 0x6f, 0x6e, 0x66, 0x69, 0x67]

/-- `sizeof(pci_ramfs_conf_area_t)` -/
def SIZEOF_CONF_AREA : Nat := 3

/-- The callbacks of a `config` file: `pci_vfs_confing_read` and `pci_vfs_confing_write`. -/
def confCallbacks : Callbacks := ⟨false, false, true, true, false, false⟩

/-! ## Making the files -/

/-- Fill in the node of a `config` file; `kmalloc` has left what was there, and all but `filePtr` is stored. -/
def fillConfNode (s : Ramfs) (node : Nat) (fileName : List UInt8) : Option Ramfs :=
  let r := fsNewInoId s
  r.2.update node fun n =>
    { name := (strncpy fileName MAX_FNAME).bytes
      ino := r.1
      type := .regular
      length := 0
      callbacks := confCallbacks
      nodePtr := 0
      filePtr := n.filePtr
      next := 0
      children := 0 }

/-- Give the node of a `config` file the place of its function, and link it to its directory. -/
def addConfArea (s : Ramfs) (parentDir node : Nat) (d : PciRamfsConfArea) : Option (Ramfs × Nat × RfsErr) :=
  let area := kmalloc s.heap SIZEOF_CONF_AREA
  (({ s with heap := area.2 } : Ramfs).update node fun n => { n with filePtr := area.1 }).bind fun s =>
    if area.1 = 0 then some (s.kfree node, 0, .nok)
    else
      (appendChild (s.store area.1 [d.bus, d.device, d.function]) parentDir node).map fun s => (s, node, .ok)

/-- `pci_ramfs_addNewConfAreaFile` -/
def Ramfs.pciAddNewConfAreaFile (s : Ramfs) (fileName parentPath : List UInt8) (d : PciRamfsConfArea) :
    Option (Ramfs × Nat × RfsErr) :=
  (creationParent s fileName parentPath).bind fun parent =>
    if parent.1 ≠ .ok then some (s, 0, parent.1)
    else
      let ramfsNode := kmalloc s.heap SIZEOF_NODE
      let s : Ramfs := { s with heap := ramfsNode.2 }
      if ramfsNode.1 = 0 then some (s, 0, .nok)
      else (fillConfNode s ramfsNode.1 fileName).bind fun s => addConfArea s parent.2 ramfsNode.1 d

/-- A file for an identifier: `ramfs_newRegFile` and `ramfs_write`, whose result is compared with 0 only. -/
def Ramfs.pciAddIdFile (s : Ramfs) (fileName pciPeriphDir : List UInt8) (id : UInt16) :
    Option (Ramfs × Nat × Bool) :=
  (ramfsNewRegFile s fileName pciPeriphDir).bind fun file =>
    if file.2.1 = 0 then some (file.1, 0, RET_T_NOK)
    else
      (ramfsWrite file.1 file.2.1 (uint16Bytes id) 0).map fun written =>
        (written.1, file.2.1, if written.2 = 0 then RET_T_NOK else RET_T_OK)

/-- The nodes that `fileNodePtr` has pointed to, one file after the other; `NULL` for the files that were not made. -/
structure PciNodes where
  vendor : Nat
  device : Nat
  subsystemVendor : Nat
  config : Nat
deriving Repr, DecidableEq

/-- `(uint16_t)pci_read32(bus, device, function, PCI_HDR_DEVICEID_OFFSET)` -/
def pciGetDeviceID (cfg : ConfigSpace) (d : PciRamfsConfArea) : UInt16 :=
  (pciRead32 cfg d.bus d.device d.function PCI_HDR_DEVICEID_OFFSET).toUInt16

/-- `pci_ramfs_addFiles`, with the nodes it has made for the record. -/
def Ramfs.pciAddFiles (s : Ramfs) (cfg : ConfigSpace) (pciPeriphDir : List UInt8) (d : PciRamfsConfArea) :
    Option (Ramfs × PciNodes × Bool) :=
  let vendorID := pciGetVendorID cfg d.bus d.device d.function
  let deviceID := pciGetDeviceID cfg d
  (s.pciAddIdFile VENDOR_NAME pciPeriphDir vendorID).bind fun vendor =>
    if vendor.2.2 = RET_T_NOK then some (vendor.1, ⟨vendor.2.1, 0, 0, 0⟩, RET_T_NOK)
    else
      (vendor.1.pciAddIdFile DEVICE_NAME pciPeriphDir deviceID).bind fun device =>
        if device.2.2 = RET_T_NOK then some (device.1, ⟨vendor.2.1, device.2.1, 0, 0⟩, RET_T_NOK)
        else
          -- The device identifier goes to this file as well.
          (device.1.pciAddIdFile SUBSYSTEM_VENDOR_NAME pciPeriphDir deviceID).bind fun subsystem =>
            if subsystem.2.2 = RET_T_NOK then
              some (subsystem.1, ⟨vendor.2.1, device.2.1, subsystem.2.1, 0⟩, RET_T_NOK)
            else
              (subsystem.1.pciAddNewConfAreaFile CONFIG_NAME pciPeriphDir d).map fun config =>
                (config.1, ⟨vendor.2.1, device.2.1, subsystem.2.1, config.2.1⟩,
                  if config.2.1 = 0 then RET_T_NOK else RET_T_OK)

/-- The path that `sprintf` makes of a directory name, as an unbounded string. -/
def pciDevPath (beyond : Nat) (pciDevName : List UInt8) : List UInt8 :=
  (rendering beyond PCI_DEV_PATH_FORMAT [.str PCI_FS_PATH, .str pciDevName]).getD []

/-- `pci_ramfs_addnode`, with the nodes of the files for the record. -/
def Ramfs.pciAddnode (s : Ramfs) (cfg : ConfigSpace) (beyond : Nat) (d : PciRamfsConfArea) :
    Option (Ramfs × PciNodes × Bool) :=
  let name := pciDevName beyond d.bus d.device d.function
  (ramfsMkDir s name PCI_FS_PATH).bind fun dir =>
    if dir.2.1 = 0 then some (dir.1, ⟨0, 0, 0, 0⟩, RET_T_NOK)
    else dir.1.pciAddFiles cfg (pciDevPath beyond name) d

/-! ## Reading them -/

/-- The `pci_ramfs_conf_area_t` behind the `filePtr` of a node. -/
def Ramfs.confArea (s : Ramfs) (node : Nat) : PciRamfsConfArea :=
  let filePtr := (s.node node).filePtr
  ⟨s.heap.mem filePtr, s.heap.mem (filePtr + 1), s.heap.mem (filePtr + 2)⟩

/-- A read of two bytes from the file and one from the `config` file at an offset give the same bytes. -/
def SameBytes (cfg : ConfigSpace) (s : Ramfs) (file config : Nat) (offset : UInt8) : Prop :=
  ∀ buf, (pciVfsConfingRead cfg (s.confArea config) buf 2 offset.toNat).1 = 2 ∧
    ramfsRead s file 2 0 =
      some (Memory.readAt (pciVfsConfingRead cfg (s.confArea config) buf 2 offset.toNat).2 0 2)

/-- `(uint16_t)pci_read32(bus, device, function, PCI_HDR_00_SUBSYS_VENDOR_OFFSET)` -/
def pciGetSubsystemVendorID (cfg : ConfigSpace) (d : PciRamfsConfArea) : UInt16 :=
  (pciRead32 cfg d.bus d.device d.function PCI_HDR_00_SUBSYS_VENDOR_OFFSET).toUInt16

/-- The header of the function has type 00, whether or not there are other functions. -/
def HasType00Header (cfg : ConfigSpace) (d : PciRamfsConfArea) : Prop :=
  pciGetHeaderType cfg d.bus d.device d.function &&& ~~~PCI_HDR_IS_MULTIFUNCTION = 0

instance (cfg : ConfigSpace) (d : PciRamfsConfArea) : Decidable (HasType00Header cfg d) :=
  inferInstanceAs (Decidable (_ = _))

/-- Every file with an identifier agrees with the `config` file. -/
structure FilesAgree (cfg : ConfigSpace) (s : Ramfs) (d : PciRamfsConfArea) (files : PciNodes) : Prop where
  vendor : SameBytes cfg s files.vendor files.config PCI_HDR_VENDORID_OFFSET
  device : SameBytes cfg s files.device files.config PCI_HDR_DEVICEID_OFFSET
  subsystemVendor : HasType00Header cfg d →
    SameBytes cfg s files.subsystemVendor files.config PCI_HDR_00_SUBSYS_VENDOR_OFFSET

/-! ## Two bytes -/

variable {cfg : ConfigSpace} {d : PciRamfsConfArea} {s s₁ s' : Ramfs} {x t P file config : Nat} {name dir : List UInt8}

/-- A read of two bytes takes none of the words. -/
theorem pciVfsConfingRead_two (cfg : ConfigSpace) (d : PciRamfsConfArea) (buf : Nat → UInt8) (offset : Nat) :
    (pciVfsConfingRead cfg d buf 2 offset).1 = 2 ∧
      Memory.readAt (pciVfsConfingRead cfg d buf 2 offset).2 0 2 =
        [(pciRead32 cfg d.bus d.device d.function (.ofNat offset)).toUInt8,
          (pciRead32 cfg d.bus d.device d.function (.ofNat (offset + 1))).toUInt8] := ⟨rfl, rfl⟩

theorem uint32_shift_bytes (w : UInt32) {k : Nat} (hk : k < 3) :
    (w >>> .ofNat (8 * k)).toUInt16.toUInt8 = (w >>> .ofNat (8 * k)).toUInt8 ∧
      ((w >>> .ofNat (8 * k)).toUInt16 >>> 8).toUInt8 = (w >>> .ofNat (8 * (k + 1))).toUInt8 := by
  have hshift := (uint32_shift k (by omega)).2
  have hnext := (uint32_shift (k + 1) (by omega)).2
  have hdiv : w.toNat / 2 ^ (8 * (k + 1)) = w.toNat / 2 ^ (8 * k) / 2 ^ 8 := by
    rw [Nat.div_div_eq_div_mul, ← Nat.pow_add, Nat.mul_add]
  constructor
  · exact UInt32.toUInt8_toUInt16 _
  · apply UInt8.toNat_inj.mp
    rw [UInt16.toNat_toUInt8, UInt16.toNat_shiftRight, UInt32.toNat_toUInt16, UInt32.toNat_toUInt8,
      UInt32.toNat_shiftRight, UInt32.toNat_shiftRight, hshift, hnext, Nat.shiftRight_eq_div_pow,
      Nat.shiftRight_eq_div_pow, Nat.shiftRight_eq_div_pow, hdiv]
    generalize w.toNat / 2 ^ (8 * k) = high
    show high % 2 ^ 16 / 2 ^ 8 % 2 ^ 8 = high / 2 ^ 8 % 2 ^ 8
    omega

/-- An identifier in one dword has the bytes of two one-byte reads. -/
theorem uint16Bytes_pciRead32 (cfg : ConfigSpace) (d : PciRamfsConfArea) {q k : Nat} (hq : q < 64) (hk : k < 3) :
    uint16Bytes (pciRead32 cfg d.bus d.device d.function (.ofNat (4 * q + k))).toUInt16 =
      [(pciRead32 cfg d.bus d.device d.function (.ofNat (4 * q + k))).toUInt8,
        (pciRead32 cfg d.bus d.device d.function (.ofNat (4 * q + k + 1))).toUInt8] := by
  obtain ⟨hlow, hhigh⟩ := uint32_shift_bytes (cfg (d.address (.ofNat (4 * q)))) hk
  rw [Nat.add_assoc, pciRead32_eq cfg d hq (Nat.lt_succ_of_lt hk), pciRead32_eq cfg d hq (Nat.succ_lt_succ hk),
    uint16Bytes, hlow, hhigh]

theorem uint16Bytes_inj {v v' : UInt16} : uint16Bytes v = uint16Bytes v' ↔ v = v' := by
  refine ⟨fun h => ?_, congrArg uint16Bytes⟩
  obtain ⟨hlow, hhigh⟩ : v.toUInt8 = v'.toUInt8 ∧ (v >>> 8).toUInt8 = (v' >>> 8).toUInt8 := by
    simpa [uint16Bytes] using h
  have hlow' := congrArg UInt8.toNat hlow
  have hhigh' := congrArg UInt8.toNat hhigh
  simp [Nat.shiftRight_eq_div_pow] at hlow' hhigh'
  apply UInt16.toNat_inj.mp
  have := v.toNat_lt
  have := v'.toNat_lt
  omega


/-- A file with an identifier agrees with the register it was read from, and with others of the same value. -/
theorem HoldsBytes.sameBytes_iff {id : UInt16} (h : HoldsBytes s file (uint16Bytes id))
    (harea : s.confArea config = d) {offset : UInt8} {q k : Nat} (hq : q < 64) (hk : k < 3)
    (hoffset : offset.toNat = 4 * q + k) :
    SameBytes cfg s file config offset ↔ id = (pciRead32 cfg d.bus d.device d.function offset).toUInt16 := by
  have hread : ramfsRead s file 2 0 = some (uint16Bytes id) := h.read (show 2 < 2 ^ 32 by decide)
  have hbytes := uint16Bytes_pciRead32 cfg d hq hk
  rw [← hoffset, UInt8.ofNat_toNat] at hbytes
  have htwo := fun buf => pciVfsConfingRead_two cfg d buf offset.toNat
  rw [UInt8.ofNat_toNat, ← hbytes] at htwo
  rw [SameBytes, harea, hread]
  constructor
  · intro hsame
    have hdata := (hsame fun _ => 0).2
    rw [(htwo _).2] at hdata
    exact uint16Bytes_inj.mp (Option.some.inj hdata)
  · rintro rfl buf
    rw [(htwo buf).2]
    exact ⟨(htwo buf).1, rfl⟩

/-! ## What was made -/

theorem fits_of_kmalloc {size : Nat} (hok : s.heap.Ok) (hne : (kmalloc s.heap size).1 ≠ 0)
    (hsize : size ≤ 2 ^ 15) : s.Fits (roundUp size) := by
  have hbelow := hok.below
  have hhigh := hok.high
  have hfits : ¬ s.heap.Refuses size := fun hrefuse => hne ((kmalloc_eq_zero_iff hok).mpr hrefuse)
  have hround : roundUp size ≤ size + 3 := by
    unfold roundUp MEM_MIN_SIZE
    omega
  rw [Kheap.Refuses, Nat.not_lt, sizeToAlloc_of_lt (by unfold MEM_MIN_SIZE; omega), ← roundUp,
    u32_of_lt (by omega)] at hfits
  exact hfits

/-- A `config` file: a node with a name and the callbacks of the driver, and the place of a function. -/
structure ConfigWith (s : Ramfs) (x : Nat) (name : List UInt8) (d : PciRamfsConfArea) : Prop where
  name : (s.node x).name = (strncpy name MAX_FNAME).bytes
  callbacks : (s.node x).callbacks = confCallbacks
  area : s.confArea x = d

theorem fillConfNode_keeps (hkeeps : LoadKeeps t s s₁) (hx : x = t ∨ s.heap.currentPointer ≤ x)
    (hrun : fillConfNode s₁ x name = some s') :
    LoadKeeps t s s' ∧ (s'.node x).name = (strncpy name MAX_FNAME).bytes ∧
      (s'.node x).callbacks = confCallbacks := by
  rw [fillConfNode] at hrun
  rw [update_eq_some hrun, setNode_self]
  exact ⟨hkeeps.takeIno.setNode _ hx, rfl, rfl⟩

theorem confArea_of_stored {mem : Nat → UInt8} {filePtr : Nat} (hptr : (s.node x).filePtr = filePtr)
    (hmem : s.heap.mem = Memory.writeAt mem filePtr [d.bus, d.device, d.function]) : s.confArea x = d := by
  have hbus : Memory.writeAt mem filePtr [d.bus, d.device, d.function] (filePtr + 0) = d.bus :=
    Memory.writeAt_getElem (Nat.zero_lt_succ 2)
  have hdevice : Memory.writeAt mem filePtr [d.bus, d.device, d.function] (filePtr + 1) = d.device :=
    Memory.writeAt_getElem (show 1 < 3 by decide)
  have hfunction : Memory.writeAt mem filePtr [d.bus, d.device, d.function] (filePtr + 2) = d.function :=
    Memory.writeAt_getElem (show 2 < 3 by decide)
  rw [Nat.add_zero] at hbus
  rw [Ramfs.confArea, hptr, hmem, hbus, hdevice, hfunction]

/-- The area lies behind the node, and holds the place of the function. -/
theorem addConfArea_at {err : RfsErr} (hkeeps : LoadKeeps t s s₁) (ht : s.heap.currentPointer ≤ t)
    (hrun : addConfArea s₁ P t d = some (s', x, err)) (hx : x ≠ 0) :
    Behind s s' ∧ x = t ∧ s'.confArea x = d ∧ (s'.node x).name = (s₁.node t).name ∧
      (s'.node x).callbacks = (s₁.node t).callbacks := by
  obtain ⟨s₂, hupdate, hrun⟩ := Option.bind_eq_some_iff.mp hrun
  split at hrun
  · cases hrun
    exact absurd rfl hx
  · next harea =>
    have hkmalloc : LoadKeeps t s₁ { s₁ with heap := (kmalloc s₁.heap SIZEOF_CONF_AREA).2 } :=
      .kmalloc hkeeps.heap (fits_of_kmalloc hkeeps.heap harea (by decide))
    have haddr := (kmalloc_ne_zero harea).1
    generalize kmalloc s₁.heap SIZEOF_CONF_AREA = area at hupdate hrun harea hkmalloc haddr
    have hnode := update_eq_some hupdate
    obtain ⟨s₃, happend, hresult⟩ := Option.map_eq_some_iff.mp hrun
    cases hresult
    have hkeeps₂ := (hkeeps.trans hkmalloc (.inl rfl)).setNode { s₁.node x with filePtr := area.1 } (.inl rfl)
    have hstored := hkeeps₂.store (haddr.symm ▸ hkeeps.grow) [d.bus, d.device, d.function]
    change LoadKeeps x s (Ramfs.store (Ramfs.setNode { s₁ with heap := area.2 } x _) _ _) at hstored
    rw [← hnode] at hstored
    obtain ⟨hheap, hlinked⟩ := appendChild_node happend x
    have hself : (s₂.store area.1 [d.bus, d.device, d.function]).node x = { s₁.node x with filePtr := area.1 } := by
      rw [hnode]
      exact setNode_self _
    rw [hself] at hlinked
    refine ⟨(hstored.behind ht).link happend, rfl, ?_, ?_, ?_⟩
    · refine confArea_of_stored ?_ (congrArg Kheap.mem hheap)
      rw [hlinked]
    · rw [hlinked]
    · rw [hlinked]

theorem pciAddNewConfAreaFile_with {err : RfsErr} (hok : s.heap.Ok)
    (hrun : s.pciAddNewConfAreaFile name dir d = some (s', x, err)) (hx : x ≠ 0) :
    s.Fits SIZEOF_NODE ∧ Behind s s' ∧ ConfigWith s' x name d := by
  obtain ⟨parent, -, hrun⟩ := Option.bind_eq_some_iff.mp hrun
  split at hrun
  · cases hrun
    exact absurd rfl hx
  · dsimp only at hrun
    split at hrun
    · cases hrun
      exact absurd rfl hx
    · next hnode =>
      have hfits : s.Fits SIZEOF_NODE := fits_of_kmalloc hok hnode (by decide)
      have hkeeps : LoadKeeps s.heap.currentPointer s { s with heap := (kmalloc s.heap SIZEOF_NODE).2 } :=
        .kmalloc hok hfits
      have haddr := (kmalloc_ne_zero hnode).1
      generalize kmalloc s.heap SIZEOF_NODE = r at hrun hnode hkeeps haddr
      rw [haddr] at hrun
      obtain ⟨s₁, hfill, hrun⟩ := Option.bind_eq_some_iff.mp hrun
      obtain ⟨hkeeps₁, hname, hcallbacks⟩ := fillConfNode_keeps hkeeps (.inl rfl) hfill
      obtain ⟨hbehind, rfl, harea, hname', hcallbacks'⟩ := addConfArea_at hkeeps₁ (Nat.le_refl _) hrun hx
      exact ⟨hfits, hbehind, hname'.trans hname, hcallbacks'.trans hcallbacks, harea⟩

/-- The file of an identifier holds its bytes if one more word finds room behind it. -/
theorem pciAddIdFile_with {id : UInt16} (hok : s.heap.Ok)
    (hrun : s.pciAddIdFile name dir id = some (s', x, RET_T_OK)) :
    (s'.heap.Ok ∧ s'.heap.limit = s.heap.limit ∧ s.heap.currentPointer ≤ s'.heap.currentPointer) ∧
      (s'.Fits SIZEOF_NODE → Behind s s' ∧ FileWith s' x name (uint16Bytes id)) := by
  obtain ⟨⟨s₁, node, err⟩, hmade, hrun⟩ := Option.bind_eq_some_iff.mp hrun
  dsimp only at hrun
  split at hrun
  · cases hrun
  · next hnode =>
    obtain ⟨⟨s₂, n⟩, hwrite, hresult⟩ := Option.map_eq_some_iff.mp hrun
    obtain ⟨rfl, hrest⟩ := Prod.mk.inj hresult
    obtain ⟨rfl, -⟩ := Prod.mk.inj hrest
    obtain ⟨hheap, hwith⟩ := newRegFile_written hok hmade hnode (List.cons_ne_nil _ _) hwrite
    refine ⟨hheap, fun hfits => hwith (Nat.le_trans (Nat.add_le_add_left ?_ _) hfits)⟩
    show roundUp 2 ≤ SIZEOF_NODE
    decide

/-- What `pci_ramfs_addFiles` has made: a file for each identifier, and one for the place of the function. -/
structure FunctionFiles (cfg : ConfigSpace) (s : Ramfs) (d : PciRamfsConfArea) (files : PciNodes) : Prop where
  vendor : FileWith s files.vendor VENDOR_NAME (uint16Bytes (pciGetVendorID cfg d.bus d.device d.function))
  device : FileWith s files.device DEVICE_NAME (uint16Bytes (pciGetDeviceID cfg d))
  subsystemVendor : FileWith s files.subsystemVendor SUBSYSTEM_VENDOR_NAME (uint16Bytes (pciGetDeviceID cfg d))
  config : ConfigWith s files.config CONFIG_NAME d

/-- A file whose return code is checked before the next one was made, where the whole succeeds. -/
theorem checked_eq_some {x : Option (Ramfs × Nat × Bool)} {failed : Ramfs × Nat × Bool → Ramfs × PciNodes × Bool}
    {next : Ramfs × Nat × Bool → Option (Ramfs × PciNodes × Bool)} {files : PciNodes}
    (hfailed : ∀ r, (failed r).2.2 = RET_T_NOK)
    (hrun : (x.bind fun r => if r.2.2 = RET_T_NOK then some (failed r) else next r) = some (s', files, RET_T_OK)) :
    ∃ s₁ node, x = some (s₁, node, RET_T_OK) ∧ next (s₁, node, RET_T_OK) = some (s', files, RET_T_OK) := by
  obtain ⟨⟨s₁, node, ok⟩, hx, hnext⟩ := Option.bind_eq_some_iff.mp hrun
  dsimp only at hnext
  split at hnext
  · have hresult := hfailed (s₁, node, ok)
    rw [Option.some.inj hnext] at hresult
    cases hresult
  · next hok =>
    obtain rfl : ok = RET_T_OK := eq_true_of_ne_false hok
    exact ⟨s₁, node, hx, hnext⟩

/-- An allocator that never gives anything back found room for the last node, so every write before it found room. -/
theorem pciAddFiles_functionFiles {files : PciNodes} (hok : s.heap.Ok)
    (hrun : s.pciAddFiles cfg dir d = some (s', files, RET_T_OK)) : FunctionFiles cfg s' d files := by
  obtain ⟨s₁, vendor, hvendor, hrun⟩ := checked_eq_some (fun _ => rfl) hrun
  obtain ⟨s₂, device, hdevice, hrun⟩ := checked_eq_some (fun _ => rfl) hrun
  obtain ⟨s₃, subsystem, hsubsystem, hrun⟩ := checked_eq_some (fun _ => rfl) hrun
  obtain ⟨⟨s₄, config, err⟩, hconfig, hresult⟩ := Option.map_eq_some_iff.mp hrun
  dsimp only at hresult
  split at hresult
  · cases hresult
  next hne =>
  cases hresult
  obtain ⟨⟨hheap₁, hlimit₁, hgrow₁⟩, hwith₁⟩ := pciAddIdFile_with hok hvendor
  obtain ⟨⟨hheap₂, hlimit₂, hgrow₂⟩, hwith₂⟩ := pciAddIdFile_with hheap₁ hdevice
  obtain ⟨⟨hheap₃, hlimit₃, hgrow₃⟩, hwith₃⟩ := pciAddIdFile_with hheap₂ hsubsystem
  obtain ⟨hfits₃, hbehind₄, hfile₄⟩ := pciAddNewConfAreaFile_with hheap₃ hconfig hne
  -- The break only grows, so the room of the last node was there for each write.
  have hfits₂ : s₂.Fits SIZEOF_NODE := by
    unfold Ramfs.Fits at hfits₃ ⊢
    omega
  have hfits₁ : s₁.Fits SIZEOF_NODE := by
    unfold Ramfs.Fits at hfits₂ ⊢
    omega
  obtain ⟨-, hfile₁⟩ := hwith₁ hfits₁
  obtain ⟨hbehind₂, hfile₂⟩ := hwith₂ hfits₂
  obtain ⟨hbehind₃, hfile₃⟩ := hwith₃ hfits₃
  -- What is made later lies behind the break and leaves the earlier files alone.
  have hbehind := hbehind₃.trans hbehind₄
  exact ⟨hfile₁.behind (hbehind₂.trans hbehind), hfile₂.behind hbehind, hfile₃.behind hbehind₄, hfile₄⟩

theorem ramfsMkDir_heap {path : List UInt8} {err : RfsErr} (hok : s.heap.Ok)
    (hrun : ramfsMkDir s name path = some (s', x, err)) (hx : x ≠ 0) : s'.heap.Ok := by
  have haccepted (P : Nat) (hparent : creationParent s name path = some (.ok, P)) :
      (∃ s₁, ramfsMkDir s name path = some (s₁, 0, .nok) ∧ True) ∨
        ∃ s₇ a, s₇.heap.Ok ∧ ramfsMkDir s name path = (appendChild s₇ P a).map fun s => (s, a, .ok) := by
    rcases ramfsMkDir_cases hok hparent with ⟨s₁, _, -, hfail, -⟩ | ⟨-, s₇, a, hnew, happend⟩
    · exact .inl ⟨s₁, hfail, trivial⟩
    · exact .inr ⟨s₇, a, hnew.heap, happend⟩
  rcases creation_outcome ((Option.bind_eq_some_iff.mp hrun).imp fun _ h => h.1) trivial
    (fun _ _ => ramfsMkDir_refused) haccepted hrun with ⟨hzero, -⟩ | ⟨-, P, s₇, -, hheap, happend⟩
  · exact absurd hzero hx
  · rw [(appendChild_node happend 0).1]
    exact hheap

theorem pciAddnode_functionFiles {beyond : Nat} {files : PciNodes} (hok : s.heap.Ok)
    (hrun : s.pciAddnode cfg beyond d = some (s', files, RET_T_OK)) : FunctionFiles cfg s' d files := by
  unfold Ramfs.pciAddnode at hrun
  generalize pciDevName beyond d.bus d.device d.function = name at hrun
  obtain ⟨⟨s₁, node, err⟩, hmkDir, hrun⟩ := Option.bind_eq_some_iff.mp hrun
  dsimp only at hrun
  split at hrun
  · cases hrun
  · next hnode => exact pciAddFiles_functionFiles (ramfsMkDir_heap hok hmkDir hnode) hrun

/-! ## Agreement -/

theorem FunctionFiles.agree_iff {files : PciNodes} (h : FunctionFiles cfg s d files) :
    FilesAgree cfg s d files ↔
      (HasType00Header cfg d → pciGetSubsystemVendorID cfg d = pciGetDeviceID cfg d) := by
  have harea := h.config.area
  have hvendor : SameBytes cfg s files.vendor files.config PCI_HDR_VENDORID_OFFSET :=
    (h.vendor.holds.sameBytes_iff harea (q := 0) (k := 0) (by decide) (by decide) rfl).mpr rfl
  have hdevice : SameBytes cfg s files.device files.config PCI_HDR_DEVICEID_OFFSET :=
    (h.device.holds.sameBytes_iff harea (q := 0) (k := 2) (by decide) (by decide) rfl).mpr rfl
  have hsubsystem : SameBytes cfg s files.subsystemVendor files.config PCI_HDR_00_SUBSYS_VENDOR_OFFSET ↔
      pciGetDeviceID cfg d = pciGetSubsystemVendorID cfg d :=
    h.subsystemVendor.holds.sameBytes_iff harea (q := 11) (k := 0) (by decide) (by decide) rfl
  constructor
  · exact fun hagree htype => (hsubsystem.mp (hagree.subsystemVendor htype)).symm
  · exact fun hsame => ⟨hvendor, hdevice, fun htype => hsubsystem.mpr (hsame htype).symm⟩

/-- The calls that make `/sys/device/pci`. -/
def pciRootOps : List RamfsOp :=
  [.mkDir [0x73, 0x79, 0x73] [SLASH], .mkDir DEVICE_NAME [SLASH, 0x73, 0x79, 0x73],
    .mkDir [0x70, 0x63, 0x69] (PCI_FS_PATH.take 11)]

/-- Functions with a type 00 header: the dwords of their identifiers, and zeros. -/
def typeZeroFunction (ids subsystem : UInt32) : ConfigSpace := fun addr =>
  if addr &&& 0xFF = 0 then ids else if addr &&& 0xFF = 0x2C then subsystem else 0

/-- A call that evaluates to success is one that the theorems are about. -/
theorem exists_pciAddnode (cfg : ConfigSpace) (d : PciRamfsConfArea)
    (hrun : ((ramfsRun bootRamfs pciRootOps).any fun s => (s.pciAddnode cfg 0 d).any fun r => r.2.2) = true) :
    ∃ (s s' : Ramfs) (files : PciNodes), s.heap.Ok ∧ s.pciAddnode cfg 0 d = some (s', files, RET_T_OK) := by
  obtain ⟨s, hs, hadd⟩ := (Option.any_eq_true ..).mp hrun
  obtain ⟨⟨s', files, ok⟩, hadd, hok⟩ := (Option.any_eq_true ..).mp hadd
  obtain rfl : ok = RET_T_OK := hok
  obtain ⟨T, htree⟩ := ramfsRun_fileTree bootRamfs_boot (show ∀ op ∈ pciRootOps, op.Proper by decide) hs
  exact ⟨s, s', files, htree.heap, hadd⟩

/-- Once the files of a function are made, they agree with its configuration space exactly if the header has another
type than 00, or its subsystem vendor identifier is its device identifier. -/
theorem pciAddnode_filesAgree (cfg : ConfigSpace) (beyond : Nat) (s s' : Ramfs) (d : PciRamfsConfArea)
    (files : PciNodes) (hok : s.heap.Ok) (hrun : s.pciAddnode cfg beyond d = some (s', files, RET_T_OK)) :
    FilesAgree cfg s' d files ↔
      (HasType00Header cfg d → pciGetSubsystemVendorID cfg d = pciGetDeviceID cfg d) :=
  (pciAddnode_functionFiles hok hrun).agree_iff

/-- A function of which the two identifiers are the same. -/
theorem pciAddnode_filesAgree_same :
    ∃ (s s' : Ramfs) (files : PciNodes),
      s.pciAddnode (typeZeroFunction 0x12378086 0x1237) 0 ⟨0, 1, 0⟩ = some (s', files, RET_T_OK) ∧
        FilesAgree (typeZeroFunction 0x12378086 0x1237) s' ⟨0, 1, 0⟩ files := by
  obtain ⟨s, s', files, hok, hadd⟩ :=
    exists_pciAddnode (typeZeroFunction 0x12378086 0x1237) ⟨0, 1, 0⟩ (by decide +kernel)
  refine ⟨s, s', files, hadd, (pciAddnode_filesAgree _ 0 s s' _ files hok hadd).mpr ?_⟩
  decide

/-- The file `subsystem_vendor` of a function of another subsystem vendor has the number of the device. -/
theorem not_pciAddnode_filesAgree :
    ¬ ∀ (cfg : ConfigSpace) (beyond : Nat) (s s' : Ramfs) (d : PciRamfsConfArea) (files : PciNodes), s.heap.Ok →
      s.pciAddnode cfg beyond d = some (s', files, RET_T_OK) → FilesAgree cfg s' d files := by
  intro hall
  obtain ⟨s, s', files, hok, hadd⟩ :=
    exists_pciAddnode (typeZeroFunction 0x12378086 0x11001AF4) ⟨0, 1, 0⟩ (by decide +kernel)
  have hagree := hall _ 0 s s' _ files hok hadd
  have hsame := (pciAddnode_functionFiles hok hadd).agree_iff.mp hagree (by decide)
  exact absurd hsame (by decide)

end TalOS
