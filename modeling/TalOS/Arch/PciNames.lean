-- SUMMARY: The two names that `pci_ramfs_addnode` makes for a function, and whether they fit their buffers.
import TalOS.Arch.Pci
import TalOS.Libk.SizeBounds

/-!
# Names of a PCI function

`pci_ramfs_addnode` prints the name of the directory of a function into a buffer of
the size of a sample name, and the path of that directory into another one. A field
of the name has two digits for numbers below 100 and three above.
-/

namespace TalOS

/-- `sizeof("0000:00:00.00")` -/
def PCI_DEV_DIR_NAME_LEN : Nat := 14

/-- `"/sys/device/pci"` -/
def PCI_FS_PATH : List UInt8 :=
  [0x2f, 0x73, 0x79, 0x73, 0x2f, 0x64, 0x65, 0x76, 0x69, 0x63, 0x65, 0x2f, 0x70, 0x63, 0x69]

/-- `sizeof(PCI_FS_PATH) + PCI_DEV_DIR_NAME_LEN` -/
def PCI_DEV_PATH_LEN : Nat := PCI_FS_PATH.length + 1 + PCI_DEV_DIR_NAME_LEN

/-- `"%s/%s"` -/
def PCI_DEV_PATH_FORMAT : List UInt8 := [0x25, 0x73, 0x2f, 0x25, 0x73]

/-- `sprintf(pciDevName, "0000:%02u:%02u.%02u", bus, device, function)` -/
def sprintfDevName (beyond : Nat) (bus device function : UInt8) (pciDevName : Nat → UInt8) :
    Option ((Nat → UInt8) × Int) :=
  sprintf beyond pciDevName PCI_DEV_NAME_FORMAT
    [.word bus.toUInt32, .word device.toUInt32, .word function.toUInt32]

/-- `sprintf(pciDevPath, "%s/%s", PCI_FS_PATH, pciDevName)` for the string `name` in `pciDevName` -/
def sprintfDevPath (beyond : Nat) (name : List UInt8) (pciDevPath : Nat → UInt8) :
    Option ((Nat → UInt8) × Int) :=
  sprintf beyond pciDevPath PCI_DEV_PATH_FORMAT [.str PCI_FS_PATH, .str name]

/-! ## The text of the names -/

/-- One look at the length of every field. -/
theorem nameField_digits : ((List.range 256).all fun n =>
    (nameField n.toUInt8).length.beq (if n ≤ 99 then 2 else 3)) = true := by
  decide +kernel

theorem length_nameField (v : UInt8) : (nameField v).length = if v.toNat ≤ 99 then 2 else 3 := by
  have h := List.all_eq_true.mp nameField_digits v.toNat (List.mem_range.mpr v.toNat_lt)
  rw [show v.toNat.toUInt8 = v from UInt8.ofNat_toNat] at h
  exact Nat.eq_of_beq_eq_true h

theorem length_pciDevName (beyond : Nat) (bus device function : UInt8) :
    (pciDevName beyond bus device function).length =
      7 + (nameField bus).length + (nameField device).length + (nameField function).length := by
  rw [pciDevName_eq]
  simp only [List.length_append, List.length_cons, List.length_nil]
  omega

theorem length_pciDevName_le (beyond : Nat) (bus device function : UInt8) :
    (pciDevName beyond bus device function).length ≤ 16 := by
  have hb := (nameField_spec bus).1
  have hd := (nameField_spec device).1
  have hf := (nameField_spec function).1
  rw [length_pciDevName]
  omega

/-- The name is what `sprintf` prints. -/
theorem rendering_devName (beyond : Nat) (bus device function : UInt8) :
    rendering beyond PCI_DEV_NAME_FORMAT
      [.word bus.toUInt32, .word device.toUInt32, .word function.toUInt32] =
      some (pciDevName beyond bus device function) := by
  rw [pciDevName_eq]
  exact rendering_nameFields beyond bus device function

theorem rendering_devPath (beyond : Nat) {name : List UInt8} (hname : name.length ≤ 16) :
    rendering beyond PCI_DEV_PATH_FORMAT [.str PCI_FS_PATH, .str name] =
      some (PCI_FS_PATH ++ 0x2f :: name) := by
  have htext : textLoop beyond (PCI_DEV_PATH_FORMAT.length + 1)
      ⟨PCI_DEV_PATH_FORMAT, [.str PCI_FS_PATH, .str name]⟩ =
      some ((List.replicate (padCount 0 PCI_FS_PATH.length) SPACE ++ PCI_FS_PATH) ++
        ([0x2f] ++ ((List.replicate (padCount 0 name.length) SPACE ++ name) ++ []))) := rfl
  have hpad : ∀ len, padCount 0 len = 0 := fun len => if_neg (Nat.not_lt_zero len)
  rw [hpad, hpad, List.append_nil, List.replicate_zero, List.nil_append, List.nil_append] at htext
  refine rendering_of_textLoop htext ?_
  have hpath : PCI_FS_PATH.length = 15 := rfl
  simp only [List.length_append, List.length_cons, hpath, INT_MAX]
  omega

/-! ## The buffers -/

/-- Both calls stay inside their buffers, and the name belongs to no other function, exactly for numbers with two
digits. -/
theorem sprintfDevName_storesWithin (beyond : Nat) (bus device function : UInt8) :
    ((∀ pciDevName, StoresWithin PCI_DEV_DIR_NAME_LEN pciDevName
          (sprintfDevName beyond bus device function pciDevName)) ∧
        (∀ pciDevPath, StoresWithin PCI_DEV_PATH_LEN pciDevPath
          (sprintfDevPath beyond (pciDevName beyond bus device function) pciDevPath)) ∧
        ∀ bus' device' function',
          pciDevName beyond bus device function = pciDevName beyond bus' device' function' →
            bus = bus' ∧ device = device' ∧ function = function') ↔
      bus.toNat ≤ 99 ∧ device.toNat ≤ 99 ∧ function.toNat ≤ 99 := by
  have hlen := length_pciDevName_le beyond bus device function
  have hlen' : (PCI_FS_PATH ++ 0x2f :: pciDevName beyond bus device function).length ≤ 15 + 17 := by
    rw [List.length_append, List.length_cons]
    exact Nat.add_le_add_left (Nat.succ_le_succ hlen) _
  have hname := sprintf_storesWithin (rendering_devName beyond bus device function)
    (Nat.lt_of_le_of_lt hlen (by decide)) PCI_DEV_DIR_NAME_LEN
  have hpath := sprintf_storesWithin (rendering_devPath beyond hlen)
    (Nat.lt_of_le_of_lt hlen' (by decide)) PCI_DEV_PATH_LEN
  have hpathLength : (PCI_FS_PATH ++ 0x2f :: pciDevName beyond bus device function).length + 1 ≤ PCI_DEV_PATH_LEN ↔
      (pciDevName beyond bus device function).length + 1 ≤ PCI_DEV_DIR_NAME_LEN := by
    rw [List.length_append, List.length_cons, PCI_DEV_PATH_LEN]
    omega
  have hdigits : (pciDevName beyond bus device function).length + 1 ≤ PCI_DEV_DIR_NAME_LEN ↔
      bus.toNat ≤ 99 ∧ device.toNat ≤ 99 ∧ function.toNat ≤ 99 := by
    rw [length_pciDevName, length_nameField, length_nameField, length_nameField, PCI_DEV_DIR_NAME_LEN]
    split <;> split <;> split <;> omega
  rw [hpathLength] at hpath
  rw [← hdigits]
  constructor
  · exact fun h => hname.mp h.1
  · exact fun h => ⟨hname.mpr h, hpath.mpr h, fun _ _ _ => pciDevName_injective⟩

/-- The name of a function on bus 100 ends behind its buffer. -/
theorem not_sprintfDevName_storesWithin :
    ¬ StoresWithin PCI_DEV_DIR_NAME_LEN (fun _ => 7) (sprintfDevName 0 100 0 0 fun _ => 7) := by
  rintro ⟨mem, ret, hmem, hsame⟩
  have hrun : sprintfDevName 0 100 0 0 (fun _ => 7) = _ := vsprintf_rendering (fun _ => 7)
    (show rendering 0 PCI_DEV_NAME_FORMAT [.word 100, .word 0, .word 0] =
      some [0x30, 0x30, 0x30, 0x30, 0x3a, 0x31, 0x30, 0x30, 0x3a, 0x30, 0x30, 0x2e, 0x30, 0x30] by decide)
    (by decide)
  rw [hrun] at hmem
  obtain ⟨rfl, -⟩ := Prod.mk.inj (Option.some.inj hmem)
  exact absurd (hsame PCI_DEV_DIR_NAME_LEN (Nat.le_refl _)) (by decide)

end TalOS
