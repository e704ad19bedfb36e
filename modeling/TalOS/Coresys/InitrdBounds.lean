-- SUMMARY: Which bytes of an image loading reads: only the slots it counts and the data they point to.
import TalOS.Coresys.FileBuffers
import TalOS.Coresys.Initrd

/-!
# Bounds of an image

The loader compares no offset and no count with the length of the image. What it reads is
fixed by the image alone: the headers of the directories it visits, the slots behind each
of them, and the data of the files in these slots. If all of that lies in the image, loading
ends and reads nothing else, whatever the heap does.
-/

open MachineInt

namespace TalOS

/-! ## The headers that are visited -/

/-- Offset of the header of the entry `i` of the directory whose header is at offset `o`. -/
def slotOffset (o i : Nat) : Nat := o + SIZEOF_INITRD_FILE_HEADER + i * SIZEOF_INITRD_FILE_HEADER

/-- The word at `field` of the header at offset `o`. -/
def headerWord (byte : Nat → UInt8) (base o field : Nat) : Nat := Access.leValue byte (base + o + field) 4

def typeAt (byte : Nat → UInt8) (base o : Nat) : Nat := headerWord byte base o 132
def dirNfilesAt (byte : Nat → UInt8) (base o : Nat) : Nat := headerWord byte base o 136
def startFileOffAt (byte : Nat → UInt8) (base o : Nat) : Nat := headerWord byte base o 140
def lengthAt (byte : Nat → UInt8) (base o : Nat) : Nat := headerWord byte base o 144

/-- The header at an offset is that of the root directory, or of a directory below it. -/
inductive Visited (byte : Nat → UInt8) (base : Nat) : Nat → Prop where
  | root : Visited byte base SIZEOF_INITRD_HEADER
  | child {o i : Nat} (hdir : Visited byte base o) (hi : i < dirNfilesAt byte base o)
      (htype : typeAt byte base (slotOffset o i) = INITRD_FTYPE_DIR) :
      Visited byte base (slotOffset o i)

/-- Every header that is visited, every slot behind it and the data of every file lie in the first
`len` bytes. -/
structure InBounds (byte : Nat → UInt8) (base len : Nat) : Prop where
  header : SIZEOF_INITRD_HEADER + SIZEOF_INITRD_FILE_HEADER ≤ len
  slots : ∀ o, Visited byte base o → ∀ i < dirNfilesAt byte base o,
    slotOffset o i + SIZEOF_INITRD_FILE_HEADER ≤ len
  data : ∀ o, Visited byte base o → ∀ i < dirNfilesAt byte base o,
    typeAt byte base (slotOffset o i) = INITRD_FTYPE_REGULAR →
      startFileOffAt byte base (slotOffset o i) + lengthAt byte base (slotOffset o i) ≤ len

/-! ## Steps that do not leave the image -/

/-- If a step has no result, it is for what it does in the file system. -/
def Stays {α : Type} (x : Except LoadStop α) : Prop := ∀ e, x = .error e → e = .undefined

variable {α β : Type} {image : Access.Mem} {byte : Nat → UInt8} {base len o h : Nat} {s : Ramfs}

@[simp] theorem stays_ok (a : α) : Stays (.ok a) := nofun

@[simp] theorem stays_defined (x : Option α) : Stays (defined x) := by
  cases x with
  | none => exact fun _ h => (Except.error.inj h).symm
  | some a => exact stays_ok a

theorem Stays.bind {x : Except LoadStop α} {f : α → Except LoadStop β} (hx : Stays x)
    (hf : ∀ a, x = .ok a → Stays (f a)) : Stays (x >>= f) := by
  cases x with
  | ok a => exact hf a rfl
  | error e =>
    rintro e' ⟨⟩
    exact hx e rfl

theorem Stays.map {x : Except LoadStop α} (hx : Stays x) (f : α → β) : Stays (x.map f) := by
  cases x with
  | ok a => exact stays_ok (f a)
  | error e =>
    rintro e' ⟨⟩
    exact hx e rfl

theorem readWord_of_readable {a : Nat} (hread : image.Readable a 4) :
    readWord image a = .ok (Access.leValue image.byte a 4) := by
  rw [readWord, Access.load_of_readable hread]
  rfl

theorem readBytes_of_readable {a n : Nat} (hread : image.Readable a n) :
    readBytes image a n = .ok ((List.range n).map fun i => image.byte (u32 (a + i))) := by
  rw [readBytes, Access.loadBytes_of_readable hread]
  rfl

theorem readName_stays {n a : Nat} (hread : image.Readable a n) : Stays (readName image n a) := by
  induction n generalizing a with
  | zero => exact stays_ok []
  | succ n ih =>
    obtain ⟨hfirst, hrest⟩ := hread.succ
    rw [readName, if_pos hfirst]
    split
    · exact stays_ok []
    · exact (ih hrest).map _

theorem loadInitrdRegFile_stays (hslot : image.Readable h SIZEOF_INITRD_FILE_HEADER)
    (hdata : ∀ start length, headerStartFileOff image h = .ok start → headerLength image h = .ok length →
      image.Readable (base + start) length) : Stays (loadInitrdRegFile image base h s) := by
  have hword {field : Nat} (hfield : field + 4 ≤ SIZEOF_INITRD_FILE_HEADER) :
      Stays (readWord image (h + field)) := by
    rw [readWord_of_readable]
    · exact stays_ok _
    · intro i hi
      rw [Nat.add_assoc]
      exact hslot _ (by omega)
  have hname : image.Readable h MAX_FNAME := fun i hi => hslot i (Nat.lt_trans hi (by decide))
  unfold loadInitrdRegFile
  dsimp only
  split
  · exact stays_ok _
  · refine (hword (by decide)).bind fun length hlength => ?_
    refine (readName_stays hname).bind fun name _ => ?_
    refine (stays_defined _).bind fun s _ => ?_
    refine (stays_defined _).bind fun s _ => ?_
    split
    · exact stays_ok _
    · refine (hword (by decide)).bind fun start hstart => ?_
      rw [readBytes_of_readable (hdata start length hstart hlength)]
      exact (stays_defined _).bind fun s _ => stays_ok _

theorem loadInitrdDirFile_stays (hslot : image.Readable h SIZEOF_INITRD_FILE_HEADER) :
    Stays (loadInitrdDirFile image h s) := by
  have hname : image.Readable h MAX_FNAME := fun i hi => hslot i (Nat.lt_trans hi (by decide))
  unfold loadInitrdDirFile
  dsimp only
  split
  · exact stays_ok _
  · refine (readName_stays hname).bind fun name _ => ?_
    refine (stays_defined _).bind fun s _ => ?_
    exact (stays_defined _).bind fun s _ => stays_ok _

/-! ## Addresses and offsets -/

theorem readable_only (hlen : len < 2 ^ 32) {n : Nat} (hfits : o + n ≤ len) :
    (Access.Mem.only byte base len).Readable (base + o) n := by
  intro i hi
  refine decide_eq_true ?_
  unfold u32 sub32
  omega

/-- A header at a wrapped address. -/
theorem slot_readable (hlen : len < 2 ^ 32)
    (hfits : o + SIZEOF_INITRD_FILE_HEADER ≤ len) :
    (Access.Mem.only byte base len).Readable (u32 (base + o)) SIZEOF_INITRD_FILE_HEADER := by
  exact (Access.readable_u32 _ (base + o) 0 _).mpr (readable_only hlen hfits)

theorem childHeader_u32 (i : Nat) : childHeader (u32 (base + o)) i = u32 (base + slotOffset o i) := by
  rw [childHeader, slotOffset, Nat.add_assoc, Access.u32_add_mod]
  simp only [Nat.add_assoc]

theorem readWord_header (hlen : len < 2 ^ 32)
    (hfits : o + SIZEOF_INITRD_FILE_HEADER ≤ len) {field : Nat}
    (hfield : field + 4 ≤ SIZEOF_INITRD_FILE_HEADER) :
    readWord (Access.Mem.only byte base len) (u32 (base + o) + field) =
      .ok (headerWord byte base o field) := by
  have hread : (Access.Mem.only byte base len).Readable (u32 (base + o) + field) 4 := by
    refine (Access.readable_u32 _ _ _ _).mpr ?_
    rw [Nat.add_assoc]
    exact readable_only hlen (by omega)
  rw [readWord_of_readable hread, headerWord]
  exact congrArg _ (Access.leValue_congr (Access.u32_add_mod _ _) 4)

/-! ## Loading an image -/

theorem InBounds.data_readable {i : Nat} (h : InBounds byte base len) (hlen : len < 2 ^ 32)
    (hdir : Visited byte base o) (hi : i < dirNfilesAt byte base o)
    (htype : typeAt byte base (slotOffset o i) = INITRD_FTYPE_REGULAR) {start length : Nat}
    (hstart : headerStartFileOff (Access.Mem.only byte base len) (u32 (base + slotOffset o i)) = .ok start)
    (hlength : headerLength (Access.Mem.only byte base len) (u32 (base + slotOffset o i)) = .ok length) :
    (Access.Mem.only byte base len).Readable (base + start) length := by
  have hslot := h.slots o hdir i hi
  rw [headerStartFileOff, readWord_header hlen hslot (by decide)] at hstart
  rw [headerLength, readWord_header hlen hslot (by decide)] at hlength
  obtain rfl := Except.ok.inj hstart
  obtain rfl := Except.ok.inj hlength
  exact readable_only hlen (h.data o hdir i hi htype)

/-- Fuel for the entry that has `left` entries behind it, if it is a directory. -/
theorem fuel_of_entry {left : Nat}
    (hbelow : ∀ i < dirNfilesAt byte base o, typeAt byte base (slotOffset o i) = INITRD_FTYPE_DIR →
      ∃ N, ∀ fuel ≥ N, ∀ parent currentDir s, Stays (loadInitrdFiles (Access.Mem.only byte base len) base
        fuel parent currentDir (u32 (base + slotOffset o i)) s)) :
    ∃ N, ∀ fuel ≥ N, ∀ i, i + (left + 1) = dirNfilesAt byte base o →
      typeAt byte base (slotOffset o i) = INITRD_FTYPE_DIR → ∀ parent currentDir s,
        Stays (loadInitrdFiles (Access.Mem.only byte base len) base fuel parent currentDir
          (u32 (base + slotOffset o i)) s) := by
  by_cases hdir : ∃ i, i + (left + 1) = dirNfilesAt byte base o ∧
      typeAt byte base (slotOffset o i) = INITRD_FTYPE_DIR
  · obtain ⟨i, hi, htype⟩ := hdir
    obtain ⟨N, hN⟩ := hbelow i (by omega) htype
    refine ⟨N, fun fuel hfuel j hj _ => ?_⟩
    obtain rfl : j = i := by omega
    exact hN fuel hfuel
  · exact ⟨0, fun _ _ i hi htype => absurd ⟨i, hi, htype⟩ hdir⟩

/-- The loop over the `left` last entries of a directory, where loading each directory among them
stays in the image. -/
theorem InBounds.loadChildren_stays (h : InBounds byte base len) (hlen : len < 2 ^ 32)
    (hdir : Visited byte base o)
    (hbelow : ∀ i < dirNfilesAt byte base o, typeAt byte base (slotOffset o i) = INITRD_FTYPE_DIR →
      ∃ N, ∀ fuel ≥ N, ∀ parent currentDir s, Stays (loadInitrdFiles (Access.Mem.only byte base len) base
        fuel parent currentDir (u32 (base + slotOffset o i)) s))
    (left : Nat) : ∃ N, ∀ fuel ≥ N, ∀ currentDir up prev s i, i + left = dirNfilesAt byte base o →
      Stays (loadChildren (Access.Mem.only byte base len) base fuel currentDir up (u32 (base + o)) i prev s) := by
  have hheader : o + SIZEOF_INITRD_FILE_HEADER ≤ len := by
    cases hdir with
    | root => exact h.header
    | child hdir hi htype => exact h.slots _ hdir _ hi
  have hcount : headerDirNfiles (Access.Mem.only byte base len) (u32 (base + o)) =
      .ok (dirNfilesAt byte base o) := readWord_header hlen hheader (by decide)
  induction left with
  | zero =>
    refine ⟨1, fun fuel hfuel currentDir up prev s i hi => ?_⟩
    obtain ⟨fuel, rfl⟩ := Nat.exists_eq_add_one.mpr hfuel
    rw [loadChildren, hcount]
    refine Stays.bind (stays_ok _) fun n hn => ?_
    obtain rfl := Except.ok.inj hn
    rw [if_neg (Nat.not_lt.mpr (Nat.le_of_eq (by omega)))]
    exact stays_ok _
  | succ left ih =>
    obtain ⟨N, hN⟩ := ih
    obtain ⟨M, hM⟩ := fuel_of_entry hbelow
    refine ⟨max N M + 1, fun fuel hfuel currentDir up prev s i hi => ?_⟩
    obtain ⟨fuel, rfl⟩ := Nat.exists_eq_add_one.mpr (Nat.zero_lt_of_lt hfuel)
    have hfuel : max N M ≤ fuel := Nat.le_of_succ_le_succ hfuel
    have hrest := hN fuel (Nat.le_trans (Nat.le_max_left _ _) hfuel)
    have hchild := hM fuel (Nat.le_trans (Nat.le_max_right _ _) hfuel) i hi
    have hi' : i < dirNfilesAt byte base o := by omega
    have hnext : i + 1 + left = dirNfilesAt byte base o := by omega
    have hslot := h.slots o hdir i hi'
    have hread : (Access.Mem.only byte base len).Readable (u32 (base + slotOffset o i))
        SIZEOF_INITRD_FILE_HEADER := slot_readable hlen hslot
    have htypeRead : headerType (Access.Mem.only byte base len) (u32 (base + slotOffset o i)) =
        .ok (typeAt byte base (slotOffset o i)) := readWord_header hlen hslot (by decide)
    rw [loadChildren, hcount, childHeader_u32, htypeRead]
    refine Stays.bind (stays_ok _) fun n hn => ?_
    obtain rfl := Except.ok.inj hn
    rw [if_pos hi']
    refine Stays.bind (stays_ok _) fun type htype => ?_
    obtain rfl := Except.ok.inj htype
    -- A file, a directory, or a slot that is passed over.
    split
    · next hregular =>
      refine (loadInitrdRegFile_stays hread fun _ _ => h.data_readable hlen hdir hi' hregular).bind
        fun curr _ => ?_
      exact (stays_defined _).bind fun s _ => hrest currentDir up curr.2 s (i + 1) hnext
    · split
      · next hsub =>
        refine (loadInitrdDirFile_stays hread).bind fun curr _ => ?_
        refine (hchild hsub currentDir curr.2 curr.1).bind fun below _ => ?_
        split
        · exact stays_ok _
        · exact (stays_defined _).bind fun s _ => hrest currentDir up curr.2 s (i + 1) hnext
      · exact hrest currentDir up prev s (i + 1) hnext

/-- Each directory is behind the one it is in, so the way down ends at the end of the image. -/
theorem InBounds.loadInitrdFiles_stays (h : InBounds byte base len) (hlen : len < 2 ^ 32)
    (hdir : Visited byte base o) : ∃ N, ∀ fuel ≥ N, ∀ parent currentDir s,
      Stays (loadInitrdFiles (Access.Mem.only byte base len) base fuel parent currentDir
        (u32 (base + o)) s) := by
  induction hleft : len - o using Nat.strong_induction_on generalizing o with
  | _ left ih =>
    obtain ⟨N, hN⟩ := h.loadChildren_stays hlen hdir (fun i hi htype => by
      have hslot := h.slots o hdir i hi
      refine ih _ ?_ (.child hdir hi htype) rfl
      unfold slotOffset SIZEOF_INITRD_FILE_HEADER at *
      omega) (dirNfilesAt byte base o)
    refine ⟨N + 1, fun fuel hfuel parent currentDir s => ?_⟩
    obtain ⟨fuel, rfl⟩ := Nat.exists_eq_add_one.mpr (Nat.zero_lt_of_lt hfuel)
    rw [loadInitrdFiles]
    refine (stays_defined _).bind fun dots _ => ?_
    split
    · exact stays_ok _
    · exact hN fuel (Nat.le_of_succ_le_succ hfuel) currentDir _ 0 _ 0 (Nat.zero_add _)

/-- An image that stands at 2 MiB. -/
def imageAt (image : List UInt8) : Nat → UInt8 := fun a => image.getD (a - 0x200000) 0

/-- One file of one byte, in 317 bytes. -/
def fileImage : List UInt8 :=
  imageHeaderBytes 317 1 ++ fileHeaderBytes [] INITRD_FTYPE_DIR 1 0 0 ++
    fileHeaderBytes [0x66] INITRD_FTYPE_REGULAR 0 316 1 ++ [0x2a]

/-- The header of the root directory counts one entry, and the image ends behind it. -/
def strayImage : List UInt8 := imageHeaderBytes 164 1 ++ fileHeaderBytes [] INITRD_FTYPE_DIR 1 0 0

theorem fileImage_inBounds : InBounds (imageAt fileImage) 0x200000 317 := by
  have hcount : dirNfilesAt (imageAt fileImage) 0x200000 SIZEOF_INITRD_HEADER = 1 := by decide +kernel
  have htype : typeAt (imageAt fileImage) 0x200000 (slotOffset SIZEOF_INITRD_HEADER 0) =
      INITRD_FTYPE_REGULAR := by decide +kernel
  have honly : ∀ o, Visited (imageAt fileImage) 0x200000 o → o = SIZEOF_INITRD_HEADER := by
    intro o hdir
    induction hdir with
    | root => rfl
    | child hdir hi hsub ih =>
      subst ih
      rw [hcount, Nat.lt_one_iff] at hi
      rw [hi, htype] at hsub
      exact absurd hsub (by decide)
  refine ⟨by decide, fun o hdir i hi => ?_, fun o hdir i hi _ => ?_⟩
  · obtain rfl := honly o hdir
    rw [hcount, Nat.lt_one_iff] at hi
    subst hi
    decide
  · obtain rfl := honly o hdir
    rw [hcount, Nat.lt_one_iff] at hi
    subst hi
    decide +kernel

end TalOS
