-- SUMMARY: Reading and writing the configuration space of a function through its `config` file.
import TalOS.Arch.Pci
import TalOS.Lib.Memory
import TalOS.Libk.Kheap

/-!
# The config file of a PCI function

The read and write functions of a `config` file go to the configuration space,
here a byte for every configuration address. A 32-bit read of the data port
delivers the bytes of the selected dword, a 16-bit write changes its two lower
ones. The buffers are memories indexed from the caller's pointer on, so that
what lies behind the buffer shows as well.
-/

open MachineInt

namespace TalOS

def PCI_HDR_COMMAND_OFFSET : UInt8 := 0x04
def PCI_HDR_STATUS_OFFSET : UInt8 := 0x06

/-! ## The bytes of the configuration space -/

/-- The bytes of the configuration space, by the address that selects them. -/
abbrev ConfigBytes := UInt32 → UInt8

/-- `pci_ramfs_conf_area_t` -/
structure PciRamfsConfArea where
  bus : UInt8
  device : UInt8
  function : UInt8
deriving Repr, DecidableEq

/-- The address of a register of a function. -/
def PciRamfsConfArea.address (d : PciRamfsConfArea) (reg : UInt8) : UInt32 :=
  d.bus.toUInt32 <<< 16 ||| d.device.toUInt32 <<< 11 ||| d.function.toUInt32 <<< 8 |||
    reg.toUInt32 ||| PCI_ENABLE_BIT

/-- The byte of the function's configuration at an offset. -/
def confByte (conf : ConfigBytes) (d : PciRamfsConfArea) (offset : Nat) : UInt8 :=
  conf (d.address (.ofNat offset))

/-- What the data port reads: the dword at the address, whose two low bits the
driver keeps clear. -/
def configDword (conf : ConfigBytes) : ConfigSpace := fun addr =>
  .ofNat ((conf addr).toNat + 2 ^ 8 * (conf (addr ||| 1)).toNat + 2 ^ 16 * (conf (addr ||| 2)).toNat +
    2 ^ 24 * (conf (addr ||| 3)).toNat)

/-- `outw` to the data port. -/
def configOutw (conf : ConfigBytes) (addr : UInt32) (v : UInt16) : ConfigBytes :=
  Function.update (Function.update conf addr v.toUInt8) (addr ||| 1) (v >>> 8).toUInt8

/-- `pci_write16` -/
def pciWrite16 (conf : ConfigBytes) (bus dev func regNum : UInt8) (v : UInt16) : ConfigBytes :=
  let addr := bus.toUInt32 <<< 16 ||| dev.toUInt32 <<< 11 ||| func.toUInt32 <<< 8 |||
    (regNum.toUInt32 &&& 0xFC) ||| PCI_ENABLE_BIT
  configOutw conf addr v

set_option maxRecDepth 4000 in
theorem uint8_reg : ∀ q < 64, ∀ s < 4, UInt8.ofNat (4 * q + s) &&& 0xFC = .ofNat (4 * q) ∧
    UInt8.ofNat (4 * q + s) &&& 0x03 = .ofNat s ∧
    UInt8.ofNat (4 * q) ||| .ofNat s = .ofNat (4 * q + s) := by decide

theorem shiftLeft_toUInt8 (x : UInt8) {s : UInt32} (h : 8 ≤ s.toNat) (hs : s.toNat < 32) :
    (x.toUInt32 <<< s).toUInt8 = 0 := by
  have hpow : 2 ^ s.toNat = 2 ^ (s.toNat - 8) * 2 ^ 8 := by
    rw [← Nat.pow_add, Nat.sub_add_cancel h]
  have hmod : x.toNat * 2 ^ s.toNat % 2 ^ 32 % 2 ^ 8 = 0 := by
    rw [Nat.mod_mod_of_dvd _ (by decide), hpow, ← Nat.mul_assoc, Nat.mul_mod_left]
  apply UInt8.toNat_inj.mp
  rw [UInt32.toNat_toUInt8, UInt32.toNat_shiftLeft, UInt8.toNat_toUInt32, Nat.mod_eq_of_lt hs,
    Nat.shiftLeft_eq, hmod]
  rfl

namespace PciRamfsConfArea

/-- The register is the low byte of the address. -/
theorem address_toUInt8 (d : PciRamfsConfArea) (reg : UInt8) : (d.address reg).toUInt8 = reg := by
  simp [address, shiftLeft_toUInt8, PCI_ENABLE_BIT, show (2147483648 : UInt8) = 0 from rfl]

theorem address_inj {d : PciRamfsConfArea} {reg reg' : UInt8} :
    d.address reg = d.address reg' ↔ reg = reg' :=
  ⟨fun h => by rw [← d.address_toUInt8 reg, h, address_toUInt8], fun h => by rw [h]⟩

theorem address_ne (d : PciRamfsConfArea) {m n : Nat} (hm : m < 256) (hn : n < 256) (h : m ≠ n) :
    d.address (.ofNat m) ≠ d.address (.ofNat n) := by
  intro heq
  have hnat := congrArg UInt8.toNat (address_inj.mp heq)
  rw [UInt8.toNat_ofNat', UInt8.toNat_ofNat', Nat.mod_eq_of_lt hm, Nat.mod_eq_of_lt hn] at hnat
  exact h hnat

theorem address_or (d : PciRamfsConfArea) (reg k : UInt8) :
    d.address reg ||| k.toUInt32 = d.address (reg ||| k) := by
  rw [address, UInt32.or_assoc _ PCI_ENABLE_BIT, UInt32.or_comm PCI_ENABLE_BIT,
    ← UInt32.or_assoc, UInt32.or_assoc _ reg.toUInt32, ← UInt8.toUInt32_or]
  rfl

theorem address_or_of_lt (d : PciRamfsConfArea) {q k : Nat} (hq : q < 64) (hk : k < 4) :
    d.address (.ofNat (4 * q)) ||| (UInt8.ofNat k).toUInt32 = d.address (.ofNat (4 * q + k)) := by
  rw [address_or, (uint8_reg q hq k hk).2.2]

end PciRamfsConfArea

/-- What the port delivers for the dword at `4 * q`. -/
theorem configDword_toNat (conf : ConfigBytes) (d : PciRamfsConfArea) {q : Nat} (hq : q < 64) :
    (configDword conf (d.address (.ofNat (4 * q)))).toNat =
      (confByte conf d (4 * q)).toNat + 2 ^ 8 * (confByte conf d (4 * q + 1)).toNat +
        2 ^ 16 * (confByte conf d (4 * q + 2)).toNat +
        2 ^ 24 * (confByte conf d (4 * q + 3)).toNat := by
  have h₁ := d.address_or_of_lt hq (k := 1) (by decide)
  have h₂ := d.address_or_of_lt hq (k := 2) (by decide)
  have h₃ := d.address_or_of_lt hq (k := 3) (by decide)
  have hb := fun n => (confByte conf d n).toNat_lt
  have := hb (4 * q)
  have := hb (4 * q + 1)
  have := hb (4 * q + 2)
  have := hb (4 * q + 3)
  simp only [confByte] at *
  rw [← h₁, ← h₂, ← h₃] at *
  exact Nat.mod_eq_of_lt (by simp at *; omega)

theorem uint32_shift : ∀ s < 4,
    ((UInt8.ofNat s).toUInt32 <<< 3) &&& 0xFF = .ofNat (8 * s) ∧
      (UInt32.ofNat (8 * s)).toNat % 32 = 8 * s := by decide

/-- Masking the low bits of a register. -/
theorem uint32_reg {q s : Nat} (hq : q < 64) (hs : s < 4) :
    (UInt8.ofNat (4 * q + s)).toUInt32 &&& 0xFC = (UInt8.ofNat (4 * q)).toUInt32 := by
  rw [← (uint8_reg q hq s hs).1]
  exact (UInt8.toUInt32_and _ 0xFC).symm

theorem pciRead32_eq (cfg : ConfigSpace) (d : PciRamfsConfArea) {q s : Nat} (hq : q < 64)
    (hs : s < 4) :
    pciRead32 cfg d.bus d.device d.function (.ofNat (4 * q + s)) =
      cfg (d.address (.ofNat (4 * q))) >>> .ofNat (8 * s) := by
  have hlow : (UInt8.ofNat (4 * q + s)).toUInt32 &&& 0x03 = (UInt8.ofNat s).toUInt32 := by
    rw [← (uint8_reg q hq s hs).2.1]
    exact (UInt8.toUInt32_and _ 0x03).symm
  rw [pciRead32, uint32_reg hq hs, hlow, (uint32_shift s hs).1]
  rfl

theorem wordBytes_eq {w : Nat} (a b c e : UInt8)
    (h : w = a.toNat + 2 ^ 8 * b.toNat + 2 ^ 16 * c.toNat + 2 ^ 24 * e.toNat) :
    wordBytes w = [a, b, c, e] := by
  have hbyte (x : UInt8) (n : Nat) (hn : n % 2 ^ 8 = x.toNat) : n.toUInt8 = x :=
    UInt8.toNat_inj.mp ((UInt8.toNat_ofNat' ..).trans hn)
  have := a.toNat_lt
  have := b.toNat_lt
  have := c.toNat_lt
  have := e.toNat_lt
  unfold wordBytes
  rw [hbyte a, hbyte b, hbyte c, hbyte e] <;> omega

/-- The bytes of a word from its `s`-th on. -/
theorem wordBytes_div (a b c e : UInt8) {s : Nat} (hs : s < 4) :
    wordBytes ((a.toNat + 2 ^ 8 * b.toNat + 2 ^ 16 * c.toNat + 2 ^ 24 * e.toNat) / 2 ^ (8 * s)) =
      [a, b, c, e].drop s ++ List.replicate s 0 := by
  have := a.toNat_lt
  have := b.toNat_lt
  have := c.toNat_lt
  match s, hs with
  | 0, _ => exact wordBytes_eq a b c e (Nat.div_one _)
  | 1, _ => exact wordBytes_eq b c e 0 (by rw [UInt8.toNat_zero]; omega)
  | 2, _ => exact wordBytes_eq c e 0 0 (by rw [UInt8.toNat_zero]; omega)
  | 3, _ => exact wordBytes_eq e 0 0 0 (by rw [UInt8.toNat_zero]; omega)

/-- A read delivers the bytes from the register to the end of its dword, and
zeros behind them. -/
def deliveredByte (conf : ConfigBytes) (d : PciRamfsConfArea) (reg k : Nat) : UInt8 :=
  if reg % 4 + k < 4 then confByte conf d (reg + k) else 0

theorem deliveredByte_zero (conf : ConfigBytes) (d : PciRamfsConfArea) (reg : Nat) :
    deliveredByte conf d reg 0 = confByte conf d reg := if_pos (Nat.mod_lt reg (by decide))

theorem wordBytes_pciRead32 (conf : ConfigBytes) (d : PciRamfsConfArea) {reg : Nat} (h : reg < 256) :
    wordBytes (pciRead32 (configDword conf) d.bus d.device d.function (.ofNat reg)).toNat =
      [deliveredByte conf d reg 0, deliveredByte conf d reg 1, deliveredByte conf d reg 2,
        deliveredByte conf d reg 3] := by
  obtain ⟨q, s, hq, hs, rfl⟩ : ∃ q s, q < 64 ∧ s < 4 ∧ reg = 4 * q + s :=
    ⟨reg / 4, reg % 4, by omega, Nat.mod_lt _ (by decide), (Nat.div_add_mod reg 4).symm⟩
  have hmod : (4 * q + s) % 4 = s := by
    rw [Nat.mul_add_mod, Nat.mod_eq_of_lt hs]
  have hshift : (UInt32.ofNat (8 * s)).toNat % 32 = 8 * s := (uint32_shift s hs).2
  rw [pciRead32_eq _ _ hq hs, UInt32.toNat_shiftRight, configDword_toNat conf d hq, hshift,
    Nat.shiftRight_eq_div_pow, wordBytes_div _ _ _ _ hs]
  simp only [deliveredByte, hmod]
  match s, hs with
  | 0, _ | 1, _ | 2, _ | 3, _ => rfl

theorem pciRead32_toUInt8 (conf : ConfigBytes) (d : PciRamfsConfArea) {reg : Nat} (h : reg < 256) :
    (pciRead32 (configDword conf) d.bus d.device d.function (.ofNat reg)).toUInt8 =
      confByte conf d reg := by
  have hhead := congrArg List.head? (wordBytes_pciRead32 conf d h)
  rw [deliveredByte_zero] at hhead
  exact Option.some.inj hhead

/-! ## Reading and writing -/

/-- The loop over whole words in `pci_vfs_confing_read`: `readBuff32` is indexed
by `i * sizeof(uint32_t)`, which is the byte offset `16 * i`. -/
def confReadWords (cfg : ConfigSpace) (d : PciRamfsConfArea) (buf : Nat → UInt8) (offset : Nat) :
    Nat → Nat → UInt8
  | 0 => buf
  | i + 1 =>
    Memory.writeAt (confReadWords cfg d buf offset i) (4 * (i * 4))
      (wordBytes (pciRead32 cfg d.bus d.device d.function (.ofNat (offset + i * 4))).toNat)

/-- The loop over the remaining bytes; `readBuff8` is indexed from the start of
the buffer. -/
def confReadRest (cfg : ConfigSpace) (d : PciRamfsConfArea) (buf : Nat → UInt8) (offset i : Nat) :
    Nat → Nat → UInt8
  | 0 => buf
  | k + 1 =>
    Function.update (confReadRest cfg d buf offset i k) k
      (pciRead32 cfg d.bus d.device d.function (.ofNat (offset + i * 4 + k))).toUInt8

section
variable (conf : ConfigBytes) (d : PciRamfsConfArea) (buf : Nat → UInt8)

/-- The words go to the first four of every sixteen bytes. -/
theorem confReadWords_apply {offset n : Nat} (h : offset + 4 * n ≤ 256) (j : Nat) :
    confReadWords (configDword conf) d buf offset n j =
      if j < 16 * n ∧ j % 16 < 4 then deliveredByte conf d (offset + j / 16 * 4) (j % 16)
      else buf j := by
  induction n with
  | zero => rfl
  | succ n ih =>
    rw [confReadWords, wordBytes_pciRead32 conf d (by omega), show 4 * (n * 4) = 16 * n by omega]
    rcases Nat.lt_or_ge j (16 * n) with hlt | hge
    · rw [Memory.writeAt_of_lt _ hlt, ih (by omega)]
      have hlt' : j < 16 * (n + 1) := by omega
      simp only [hlt, hlt']
    · obtain ⟨k, rfl⟩ := Nat.exists_eq_add_of_le hge
      rcases Nat.lt_or_ge k 4 with hk | hk
      · have hmod : (16 * n + k) % 16 = k := by omega
        have hdiv : (16 * n + k) / 16 = n := by omega
        rw [Memory.writeAt_getElem (by exact hk), if_pos ⟨by omega, by omega⟩, hmod, hdiv]
        match k, hk with
        | 0, _ | 1, _ | 2, _ | 3, _ => rfl
      · rw [Memory.writeAt_of_ge (Nat.add_le_add_left (by exact hk) _), ih (by omega),
          if_neg (by omega), if_neg (by omega)]

/-- The rest goes to the start of the buffer. -/
theorem confReadRest_apply {offset i r : Nat} (h : offset + i * 4 + r ≤ 256) (j : Nat) :
    confReadRest (configDword conf) d buf offset i r j =
      if j < r then confByte conf d (offset + i * 4 + j) else buf j := by
  induction r with
  | zero => rfl
  | succ r ih =>
    rw [confReadRest, pciRead32_toUInt8 conf d (by omega)]
    by_cases hj : j = r
    · rw [hj, Function.update_self, if_pos (Nat.lt_succ_self r)]
    · have hiff : j < r + 1 ↔ j < r := by omega
      rw [Function.update_of_ne hj, ih (by omega), if_congr hiff rfl rfl]

end

/-- `pci_vfs_confing_read` -/
def pciVfsConfingRead (cfg : ConfigSpace) (d : PciRamfsConfArea) (buf : Nat → UInt8)
    (nbyte offset : Nat) : Int × (Nat → UInt8) :=
  let readNum := nbyte / 4
  let readRem := nbyte % 4
  (int32 (readNum * 4 + readRem),
    confReadRest cfg d (confReadWords cfg d buf offset readNum) offset readNum readRem)

/-- Where the bytes of a read end up. -/
theorem pciVfsConfingRead_apply (conf : ConfigBytes) (d : PciRamfsConfArea) (buf : Nat → UInt8)
    {nbyte offset : Nat} (h : offset + nbyte ≤ 256) (j : Nat) :
    (pciVfsConfingRead (configDword conf) d buf nbyte offset).2 j =
      if j < nbyte % 4 then confByte conf d (offset + nbyte / 4 * 4 + j)
      else if j < 16 * (nbyte / 4) ∧ j % 16 < 4 then
        deliveredByte conf d (offset + j / 16 * 4) (j % 16)
      else buf j := by
  have hend : offset + nbyte / 4 * 4 + nbyte % 4 ≤ 256 := by omega
  have hrest := confReadRest_apply conf d (confReadWords (configDword conf) d buf offset (nbyte / 4))
    hend j
  rw [confReadWords_apply conf d buf (by omega)] at hrest
  exact hrest

/-- What a read of a file does: the bytes from the offset on are in the buffer,
nothing behind them has changed. -/
structure ConfRead (conf : ConfigBytes) (d : PciRamfsConfArea) (buf : Nat → UInt8)
    (nbyte offset : Nat) (r : Int × (Nat → UInt8)) : Prop where
  count : r.1 = nbyte
  content : ∀ j < nbyte, r.2 j = confByte conf d (offset + j)
  outside : ∀ j, nbyte ≤ j → r.2 j = buf j

/-- The bytes of a read of one dword that lie in the next one. -/
def NextDwordZero (conf : ConfigBytes) (d : PciRamfsConfArea) (offset : Nat) : Prop :=
  ∀ j < 4, 4 ≤ offset % 4 + j → confByte conf d (offset + j) = 0

/-- A read of whole words stores them sixteen bytes apart and the rest over the
first: only a read of the rest alone, or of one word, delivers the bytes. -/
theorem pciVfsConfingRead_iff (conf : ConfigBytes) (d : PciRamfsConfArea) {nbyte offset : Nat}
    (h : offset + nbyte ≤ 256) :
    (∀ buf, ConfRead conf d buf nbyte offset
        (pciVfsConfingRead (configDword conf) d buf nbyte offset)) ↔
      nbyte ≤ 3 ∨ nbyte = 4 ∧ NextDwordZero conf d offset := by
  have hcount (buf : Nat → UInt8) :
      (pciVfsConfingRead (configDword conf) d buf nbyte offset).1 = nbyte := by
    rw [pciVfsConfingRead, show nbyte / 4 * 4 + nbyte % 4 = nbyte by omega,
      int32_of_lt (by omega)]
  have happly (buf : Nat → UInt8) := pciVfsConfingRead_apply conf d buf h
  constructor
  · intro hread
    -- A byte that no store reaches keeps what was in the buffer.
    have hle : nbyte ≤ 4 := by
      by_contra hgt
      have hkept := (hread fun _ => confByte conf d (offset + 4) + 1).content 4 (by omega)
      rw [happly, if_neg (by omega), if_neg (by omega)] at hkept
      exact absurd hkept (by simp)
    rcases Nat.lt_or_eq_of_le hle with hlt | rfl
    · exact Or.inl (Nat.le_of_lt_succ hlt)
    · refine Or.inr ⟨rfl, fun j hj hnext => ?_⟩
      have hbyte := (hread fun _ => 0).content j hj
      rw [happly, if_neg (by omega), if_pos (by omega), deliveredByte, if_neg (by omega)] at hbyte
      exact hbyte.symm
  · rintro (hle | ⟨rfl, hnext⟩) buf
    · have hdiv : nbyte / 4 = 0 := by omega
      have hmod : nbyte % 4 = nbyte := by omega
      refine ⟨hcount buf, fun j hj => ?_, fun j hj => ?_⟩
      · rw [happly, hmod, hdiv, if_pos hj, Nat.zero_mul, Nat.add_zero]
      · rw [happly, hmod, hdiv, if_neg (by omega), if_neg (by omega)]
    · refine ⟨hcount buf, fun j hj => ?_, fun j hj => ?_⟩
      · have hdiv : j / 16 = 0 := by omega
        have hmod : j % 16 = j := by omega
        rw [happly, if_neg (by omega), if_pos (by omega), hdiv, hmod, Nat.zero_mul, Nat.add_zero,
          deliveredByte]
        split
        · rfl
        · next hout => exact (hnext j hj (Nat.le_of_not_lt hout)).symm
      · rw [happly, if_neg (by omega), if_neg (by omega)]

/-- A read of eight bytes. -/
theorem pciVfsConfingRead_iff_eight :
    0 + 8 ≤ 256 ∧ ((∀ buf, ConfRead (fun _ => 1) ⟨0, 0, 0⟩ buf 8 0
        (pciVfsConfingRead (configDword fun _ => 1) ⟨0, 0, 0⟩ buf 8 0)) ↔
      8 ≤ 3 ∨ 8 = 4 ∧ NextDwordZero (fun _ => 1) ⟨0, 0, 0⟩ 0) :=
  ⟨by decide, pciVfsConfingRead_iff (fun _ => 1) ⟨0, 0, 0⟩ (by decide)⟩

/-- The second word of a read of eight bytes is not in its place. -/
theorem pciVfsConfingRead_scatters :
    ¬ ∀ (conf : ConfigBytes) (d : PciRamfsConfArea) (nbyte offset : Nat), offset + nbyte ≤ 256 →
      ∀ buf, ConfRead conf d buf nbyte offset
        (pciVfsConfingRead (configDword conf) d buf nbyte offset) := by
  intro hall
  have hbyte := (hall (fun _ => 1) ⟨0, 0, 0⟩ 8 0 (by decide) fun _ => 0).content 4 (by decide)
  exact absurd hbyte (by decide)

/-- `*((uint16_t*)buf)` -/
def bufUInt16 (buf : Nat → UInt8) : UInt16 := .ofNat ((buf 0).toNat + 2 ^ 8 * (buf 1).toNat)

/-- `pci_vfs_confing_write` -/
def pciVfsConfingWrite (conf : ConfigBytes) (d : PciRamfsConfArea) (buf : Nat → UInt8)
    (nbyte offset : Nat) : Int × ConfigBytes :=
  if nbyte ≠ 0 ∧ (offset = PCI_HDR_COMMAND_OFFSET.toNat ∨ offset = PCI_HDR_STATUS_OFFSET.toNat) then
    if nbyte ≥ 2 then
      let toWrite := bufUInt16 buf
      (int32 nbyte, pciWrite16 conf d.bus d.device d.function (.ofNat offset) toWrite)
    else
      let toWrite := bufUInt16 buf &&& 0xFF
      (int32 nbyte, pciWrite16 conf d.bus d.device d.function (.ofNat offset)
        toWrite.toUInt8.toUInt16)
  else (0, conf)

/-- What a write of a file does: at most two bytes are written, they are the
buffer's, and nothing else has changed. -/
structure ConfWritten (conf : ConfigBytes) (d : PciRamfsConfArea) (buf : Nat → UInt8)
    (nbyte offset : Nat) (r : Int × ConfigBytes) : Prop where
  count : r.1 = (min nbyte 2 : Nat)
  written : ∀ j < min nbyte 2, confByte r.2 d (offset + j) = buf j
  frame : ∀ addr, (∀ j < min nbyte 2, addr ≠ d.address (.ofNat (offset + j))) → r.2 addr = conf addr

theorem bufUInt16_bytes (buf : Nat → UInt8) :
    (bufUInt16 buf).toUInt8 = buf 0 ∧ (bufUInt16 buf >>> 8).toUInt8 = buf 1 := by
  have h₀ := (buf 0).toNat_lt
  have h₁ := (buf 1).toNat_lt
  simp [bufUInt16, ← UInt8.toNat_inj, Nat.shiftRight_eq_div_pow]
  omega

theorem uint8_toUInt16_bytes (b : UInt8) :
    b.toUInt16.toUInt8 = b ∧ (b.toUInt16 >>> 8).toUInt8 = 0 := by
  have h := b.toNat_lt
  simp [← UInt8.toNat_inj, Nat.shiftRight_eq_div_pow]
  omega

/-- The second byte that goes to the port: zero unless the buffer has one. -/
def secondByte (buf : Nat → UInt8) (nbyte : Nat) : UInt8 := if 2 ≤ nbyte then buf 1 else 0

/-- Either register is written through the dword they share, at its lower half. -/
theorem pciWrite16_eq (conf : ConfigBytes) (d : PciRamfsConfArea) {q s : Nat} (hq : q < 64)
    (hs : s < 4) (v : UInt16) :
    pciWrite16 conf d.bus d.device d.function (.ofNat (4 * q + s)) v =
      Function.update (Function.update conf (d.address (.ofNat (4 * q))) v.toUInt8)
        (d.address (.ofNat (4 * q + 1))) (v >>> 8).toUInt8 := by
  rw [← d.address_or_of_lt hq (k := 1) (by decide), pciWrite16, uint32_reg hq hs]
  rfl

/-- The configuration after a write to either register. -/
def commandWritten (conf : ConfigBytes) (d : PciRamfsConfArea) (buf : Nat → UInt8) (nbyte : Nat) :
    ConfigBytes :=
  Function.update (Function.update conf (d.address 4) (buf 0)) (d.address 5) (secondByte buf nbyte)

theorem pciVfsConfingWrite_eq (conf : ConfigBytes) (d : PciRamfsConfArea) (buf : Nat → UInt8)
    {nbyte offset : Nat} (hn : 1 ≤ nbyte)
    (ho : offset = PCI_HDR_COMMAND_OFFSET.toNat ∨ offset = PCI_HDR_STATUS_OFFSET.toNat) :
    pciVfsConfingWrite conf d buf nbyte offset =
      (int32 nbyte, commandWritten conf d buf nbyte) := by
  have hwrite (v : UInt16) : pciWrite16 conf d.bus d.device d.function (.ofNat offset) v =
      Function.update (Function.update conf (d.address 4) v.toUInt8) (d.address 5)
        (v >>> 8).toUInt8 := by
    rcases ho with rfl | rfl
    · exact pciWrite16_eq conf d (q := 1) (s := 0) (by decide) (by decide) v
    · exact pciWrite16_eq conf d (q := 1) (s := 2) (by decide) (by decide) v
  have hlow : (bufUInt16 buf &&& 0xFF).toUInt8 = buf 0 := by
    rw [UInt16.toUInt8_and, (bufUInt16_bytes buf).1]
    exact UInt8.and_neg_one
  rw [pciVfsConfingWrite, if_pos ⟨Nat.ne_of_gt hn, ho⟩, commandWritten, secondByte]
  split
  · simp only [hwrite, bufUInt16_bytes]
  · simp only [hwrite, hlow, uint8_toUInt16_bytes]

section
variable (conf : ConfigBytes) (d : PciRamfsConfArea) (buf : Nat → UInt8) (nbyte : Nat)

theorem commandWritten_four : confByte (commandWritten conf d buf nbyte) d 4 = buf 0 := by
  have hne : d.address 4 ≠ d.address 5 :=
    d.address_ne (m := 4) (n := 5) (by decide) (by decide) (by decide)
  exact (Function.update_of_ne hne _ _).trans (Function.update_self ..)

theorem commandWritten_five :
    confByte (commandWritten conf d buf nbyte) d 5 = secondByte buf nbyte := Function.update_self ..

theorem commandWritten_of_ne {addr : UInt32} (h₄ : addr ≠ d.address 4) (h₅ : addr ≠ d.address 5) :
    commandWritten conf d buf nbyte addr = conf addr :=
  (Function.update_of_ne h₅ _ _).trans (Function.update_of_ne h₄ _ _)

theorem commandWritten_eq_self (h₄ : confByte conf d 4 = buf 0)
    (h₅ : confByte conf d 5 = secondByte buf nbyte) : commandWritten conf d buf nbyte = conf := by
  rw [commandWritten, ← h₄, ← h₅]
  exact (congrArg (Function.update · _ _) (Function.update_eq_self ..)).trans
    (Function.update_eq_self ..)

end

/-- When a write does what it should: of the command register both bytes are
written, or its second one is zero; of the status register, every byte that is
written or should be has its value already. -/
def ConfigWriteFits (conf : ConfigBytes) (d : PciRamfsConfArea) (buf : Nat → UInt8) (nbyte offset : Nat) :
    Prop :=
  nbyte ≤ 2 ∧
    (offset = PCI_HDR_COMMAND_OFFSET.toNat ∧ (nbyte = 2 ∨ confByte conf d 5 = 0) ∨
      offset = PCI_HDR_STATUS_OFFSET.toNat ∧ (∀ j < nbyte, confByte conf d (6 + j) = buf j) ∧
        confByte conf d 4 = buf 0 ∧ confByte conf d 5 = secondByte buf nbyte)

theorem int32_eq_two {n : Nat} (hn : n < 2 ^ 32) (h : int32 n = 2) : n = 2 := by
  unfold int32 at h
  split at h <;> omega

section
variable {conf written : ConfigBytes} {d : PciRamfsConfArea} {buf : Nat → UInt8} {nbyte : Nat}

/-- The count is the request's, so no more than two bytes may be asked for. -/
theorem ConfWritten.le_two {offset : Nat} (hlt : nbyte < 2 ^ 32)
    (h : ConfWritten conf d buf nbyte offset (int32 nbyte, written)) : nbyte ≤ 2 := by
  by_contra hgt
  have hcount := h.count
  rw [Nat.min_eq_right (by omega)] at hcount
  exact hgt (Nat.le_of_eq (int32_eq_two hlt hcount))

theorem int32_min_two (h2 : nbyte ≤ 2) : int32 nbyte = (min nbyte 2 : Nat) := by
  rw [Nat.min_eq_left h2, int32_of_lt (by omega)]

/-- A write to the command register changes both of its bytes. -/
theorem confWritten_command_iff (hn : 1 ≤ nbyte) (h2 : nbyte ≤ 2) :
    ConfWritten conf d buf nbyte 4 (int32 nbyte, commandWritten conf d buf nbyte) ↔
      nbyte = 2 ∨ confByte conf d 5 = 0 := by
  have hmin : min nbyte 2 = nbyte := Nat.min_eq_left h2
  have hnone (h : nbyte ≠ 2) : secondByte buf nbyte = 0 := if_neg (by omega)
  constructor
  · intro h
    refine or_iff_not_imp_left.mpr fun hne => ?_
    -- One byte was asked for: the byte behind it is kept, and zero has gone there.
    have hkept : confByte (commandWritten conf d buf nbyte) d 5 = confByte conf d 5 :=
      h.frame (d.address 5) fun j hj =>
        d.address_ne (m := 5) (by decide) (n := 4 + j) (by omega) (by omega)
    exact hkept.symm.trans ((commandWritten_five conf d buf nbyte).trans (hnone hne))
  · intro hfive
    refine ⟨int32_min_two h2, fun j hj => ?_, fun addr hout => ?_⟩
    · rw [hmin] at hj
      match j with
      | 0 => exact commandWritten_four conf d buf nbyte
      | 1 =>
        have hsecond : secondByte buf nbyte = buf 1 := if_pos hj
        exact (commandWritten_five conf d buf nbyte).trans hsecond
      | j + 2 => omega
    · rw [hmin] at hout
      have hne₄ : addr ≠ d.address 4 := hout 0 hn
      by_cases hne₅ : addr = d.address 5
      · have hone : nbyte ≠ 2 := fun htwo => hout 1 (by omega) hne₅
        rw [hne₅]
        exact (commandWritten_five conf d buf nbyte).trans
          ((hnone hone).trans (hfive.resolve_left hone).symm)
      · exact commandWritten_of_ne conf d buf nbyte hne₄ hne₅

/-- A write to the status register goes to the command register: nothing may change by it. -/
theorem confWritten_status_iff (h2 : nbyte ≤ 2) :
    ConfWritten conf d buf nbyte 6 (int32 nbyte, commandWritten conf d buf nbyte) ↔
      (∀ j < nbyte, confByte conf d (6 + j) = buf j) ∧ confByte conf d 4 = buf 0 ∧
        confByte conf d 5 = secondByte buf nbyte := by
  constructor
  · rintro ⟨-, hwritten, hframe⟩
    rw [Nat.min_eq_left h2] at hwritten hframe
    refine ⟨fun j hj => ?_, ?_, ?_⟩
    · have hne₄ := d.address_ne (m := 6 + j) (n := 4) (by omega) (by decide) (by omega)
      have hne₅ := d.address_ne (m := 6 + j) (n := 5) (by omega) (by decide) (by omega)
      have hkept := commandWritten_of_ne conf d buf nbyte hne₄ hne₅
      exact hkept.symm.trans (hwritten j hj)
    · have hkept := hframe (d.address 4) fun j hj =>
        d.address_ne (m := 4) (by decide) (n := 6 + j) (by omega) (by omega)
      exact hkept.symm.trans (commandWritten_four conf d buf nbyte)
    · have hkept := hframe (d.address 5) fun j hj =>
        d.address_ne (m := 5) (by decide) (n := 6 + j) (by omega) (by omega)
      exact hkept.symm.trans (commandWritten_five conf d buf nbyte)
  · rintro ⟨hhas, h₄, h₅⟩
    rw [commandWritten_eq_self conf d buf nbyte h₄ h₅]
    exact ⟨int32_min_two h2, fun j hj => hhas j (by omega), fun _ _ => rfl⟩

end

/-- The status register is written at the command register's place, one byte
takes its neighbour along, and the count is the request's. -/
theorem pciVfsConfingWrite_iff (conf : ConfigBytes) (d : PciRamfsConfArea) (buf : Nat → UInt8)
    {nbyte offset : Nat} (hn : 1 ≤ nbyte) (hlt : nbyte < 2 ^ 32)
    (ho : offset = PCI_HDR_COMMAND_OFFSET.toNat ∨ offset = PCI_HDR_STATUS_OFFSET.toNat) :
    ConfWritten conf d buf nbyte offset (pciVfsConfingWrite conf d buf nbyte offset) ↔
      ConfigWriteFits conf d buf nbyte offset := by
  have hapart : PCI_HDR_COMMAND_OFFSET.toNat ≠ PCI_HDR_STATUS_OFFSET.toNat := by decide
  rw [pciVfsConfingWrite_eq conf d buf hn ho, ConfigWriteFits]
  by_cases h2 : nbyte ≤ 2
  · rw [and_iff_right h2]
    rcases ho with rfl | rfl
    · rw [and_iff_right rfl, or_iff_left fun h => hapart h.1]
      exact confWritten_command_iff hn h2
    · rw [and_iff_right rfl, or_iff_right fun h => hapart h.1.symm]
      exact confWritten_status_iff h2
  · exact iff_of_false (fun h => h2 (h.le_two hlt)) fun h => h2 h.1

/-- Two bytes for the command register. -/
theorem pciVfsConfingWrite_iff_command :
    ConfWritten (fun _ => 0) ⟨0, 0, 0⟩ (fun _ => 7) 2 4
        (pciVfsConfingWrite (fun _ => 0) ⟨0, 0, 0⟩ (fun _ => 7) 2 4) ↔
      ConfigWriteFits (fun _ => 0) ⟨0, 0, 0⟩ (fun _ => 7) 2 4 :=
  pciVfsConfingWrite_iff (fun _ => 0) ⟨0, 0, 0⟩ (fun _ => 7) (by decide) (by decide) (Or.inl rfl)

/-- Clearing the error bits of the status register clears the command register. -/
theorem pciVfsConfingWrite_status :
    ¬ ∀ (conf : ConfigBytes) (d : PciRamfsConfArea) (buf : Nat → UInt8) (nbyte offset : Nat),
      1 ≤ nbyte → nbyte < 2 ^ 32 →
      offset = PCI_HDR_COMMAND_OFFSET.toNat ∨ offset = PCI_HDR_STATUS_OFFSET.toNat →
      ConfWritten conf d buf nbyte offset (pciVfsConfingWrite conf d buf nbyte offset) := by
  intro hall
  have hwritten := (hall (fun _ => 0) ⟨0, 0, 0⟩ (fun _ => 7) 2 6 (by decide) (by decide)
    (Or.inr rfl)).written 0 (by decide)
  exact absurd hwritten (by decide)

end TalOS
