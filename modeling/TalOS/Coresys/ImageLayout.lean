-- SUMMARY: Laying a directory tree out as an initrd image that the loader reads back.
import TalOS.Coresys.LoadedFiles

/-!
# Layout of an image

The headers of a directory's entries stand right behind its own header, where the entries
after it in its parent stand too. Both are read from the same slots, so one of them has to
be the beginning of the other. A tree in which that is so everywhere is laid out in one row
of headers, and behind the headers the data of the files.
-/

open MachineInt

namespace TalOS

/-- How many entries a directory has. -/
def DirEntries.count : DirEntries → Nat
  | .nil => 0
  | .file _ _ rest => rest.count + 1
  | .dir _ _ rest => rest.count + 1

/-- The first entries are the beginning of the others. -/
def DirEntries.begins : DirEntries → DirEntries → Bool
  | .nil, _ => true
  | .file name contents rest, .file name' contents' rest' =>
    decide (name = name' ∧ contents = contents') && rest.begins rest'
  | .dir name below rest, .dir name' below' rest' =>
    decide (name = name' ∧ below = below') && rest.begins rest'
  | _, _ => false

/-- What is in a directory and what comes after it are one the beginning of the other, for every
directory. -/
def DirEntries.Packs : DirEntries → Prop
  | .nil => True
  | .file _ _ rest => rest.Packs
  | .dir _ below rest => (below.begins rest ∨ rest.begins below) ∧ below.Packs ∧ rest.Packs

/-- Every name is a string shorter than `MAX_FNAME_INITRD`. -/
def DirEntries.LegalNames : DirEntries → Prop
  | .nil => True
  | .file name _ rest => (name.length < MAX_FNAME ∧ 0 ∉ name) ∧ rest.LegalNames
  | .dir name below rest =>
    (name.length < MAX_FNAME ∧ 0 ∉ name) ∧ below.LegalNames ∧ rest.LegalNames

/-! ## Slots -/

/-- What a header says: a file and its contents, or a directory and how many entries it has. -/
inductive Slot where
  | file (name contents : List UInt8)
  | dir (name : List UInt8) (dirNfiles : Nat)
deriving Repr, DecidableEq

def Slot.name : Slot → List UInt8
  | .file name _ => name
  | .dir name _ => name

def Slot.data : Slot → List UInt8
  | .file _ contents => contents
  | .dir _ _ => []

/-- The header itself, if the data of the slot starts at offset `off`. -/
def Slot.header : Slot → Nat → List UInt8
  | .file name contents, off => fileHeaderBytes name INITRD_FTYPE_REGULAR 0 off contents.length
  | .dir name dirNfiles, _ => fileHeaderBytes name INITRD_FTYPE_DIR dirNfiles 0 0

/-- The headers, if the data starts at offset `off`. -/
def slotHeaders : List Slot → Nat → List UInt8
  | [], _ => []
  | slot :: slots, off => slot.header off ++ slotHeaders slots (off + slot.data.length)

/-- The data of all files, in the order of their headers. -/
def slotData (slots : List Slot) : List UInt8 := slots.flatMap Slot.data

/-- The slots of a directory's entries. Behind the header of a directory stand the longer of what is in
it and what comes after it. -/
def DirEntries.slots : DirEntries → List Slot
  | .nil => []
  | .file name contents rest => .file name contents :: rest.slots
  | .dir name below rest =>
    .dir name below.count :: if below.begins rest then rest.slots else below.slots

/-- Where the data starts. -/
def DirEntries.dataStart (es : DirEntries) : Nat :=
  SIZEOF_INITRD_HEADER + SIZEOF_INITRD_FILE_HEADER + es.slots.length * SIZEOF_INITRD_FILE_HEADER

/-- The image of a tree: its header, the header of the root directory, the headers of the entries and
the data. -/
def DirEntries.image (es : DirEntries) : List UInt8 :=
  imageHeaderBytes (es.dataStart + (slotData es.slots).length) es.count ++
    (fileHeaderBytes [] INITRD_FTYPE_DIR es.count 0 0 ++
      (slotHeaders es.slots es.dataStart ++ slotData es.slots))

/-- The slots begin with these entries. -/
inductive Laid : List Slot → DirEntries → Prop where
  | nil (slots : List Slot) : Laid slots .nil
  | file {slots : List Slot} {rest : DirEntries} (name contents : List UInt8) (hrest : Laid slots rest) :
      Laid (.file name contents :: slots) (.file name contents rest)
  | dir {slots : List Slot} {below rest : DirEntries} (name : List UInt8) (hbelow : Laid slots below)
      (hrest : Laid slots rest) : Laid (.dir name below.count :: slots) (.dir name below rest)

/-- The names of all slots are legal. -/
def LegalSlots (slots : List Slot) : Prop := ∀ slot ∈ slots, slot.name.length < MAX_FNAME ∧ 0 ∉ slot.name

variable {es es' below rest : DirEntries} {slots : List Slot} {name contents bytes : List UInt8}
  {byte : Nat → UInt8} {base len o off : Nat}

@[simp] theorem begins_file (name contents : List UInt8) (es es' : DirEntries) :
    (DirEntries.file name contents es).begins (.file name contents es') = es.begins es' := by
  rw [DirEntries.begins, decide_eq_true ⟨rfl, rfl⟩, Bool.true_and]

@[simp] theorem begins_dir (name : List UInt8) (below es es' : DirEntries) :
    (DirEntries.dir name below es).begins (.dir name below es') = es.begins es' := by
  rw [DirEntries.begins, decide_eq_true ⟨rfl, rfl⟩, Bool.true_and]

theorem Laid.count_le (h : Laid slots es) : es.count ≤ slots.length := by
  induction h with
  | nil => exact Nat.zero_le _
  | file name contents _ ih => exact Nat.succ_le_succ ih
  | dir name _ _ _ ih => exact Nat.succ_le_succ ih

/-- A directory has no more entries than its headers have bytes. -/
theorem Laid.count_le_bytes (h : Laid slots es) : es.count ≤ slots.length * SIZEOF_INITRD_FILE_HEADER :=
  Nat.le_trans h.count_le (Nat.le_mul_of_pos_right _ (by decide))

theorem Laid.begins (h : Laid slots es') (hbegins : es.begins es') : Laid slots es := by
  induction h generalizing es with
  | nil slots =>
    cases es with
    | nil => exact .nil slots
    | file | dir => cases hbegins
  | file name contents _ ih =>
    cases es with
    | nil => exact .nil _
    | file name' contents' rest' =>
      obtain ⟨hhead, hrest⟩ := Bool.and_eq_true_iff.mp hbegins
      obtain ⟨rfl, rfl⟩ := of_decide_eq_true hhead
      exact .file _ _ (ih hrest)
    | dir => cases hbegins
  | dir name hbelow _ _ ih =>
    cases es with
    | nil => exact .nil _
    | file => cases hbegins
    | dir name' below' rest' =>
      obtain ⟨hhead, hrest⟩ := Bool.and_eq_true_iff.mp hbegins
      obtain ⟨rfl, rfl⟩ := of_decide_eq_true hhead
      exact .dir _ hbelow (ih hrest)

theorem DirEntries.Packs.laid (h : es.Packs) : Laid es.slots es := by
  induction es with
  | nil => exact .nil _
  | file name contents rest ih => exact .file name contents (ih h)
  | dir name below rest ihbelow ihrest =>
    obtain ⟨hbegins, hbelow, hrest⟩ := h
    rw [slots]
    split
    · next hfirst => exact .dir name ((ihrest hrest).begins hfirst) (ihrest hrest)
    · next hnot =>
      exact .dir name (ihbelow hbelow) ((ihbelow hbelow).begins (hbegins.resolve_left hnot))

theorem legalSlots_cons {slot : Slot} :
    LegalSlots (slot :: slots) ↔ (slot.name.length < MAX_FNAME ∧ 0 ∉ slot.name) ∧ LegalSlots slots :=
  List.forall_mem_cons

theorem legalSlots_slots (hlegal : es.LegalNames) : LegalSlots es.slots := by
  induction es with
  | nil => exact nofun
  | file name contents rest ih => exact legalSlots_cons.mpr ⟨hlegal.1, ih hlegal.2⟩
  | dir name below rest ihbelow ihrest =>
    rw [DirEntries.slots]
    refine legalSlots_cons.mpr ⟨hlegal.1, ?_⟩
    split
    · exact ihrest hlegal.2.2
    · exact ihbelow hlegal.2.1

/-! ## Lengths -/

theorem length_fileHeaderBytes (hname : name.length < MAX_FNAME) (type dirNfiles startFileOff n : Nat) :
    (fileHeaderBytes name type dirNfiles startFileOff n).length = SIZEOF_INITRD_FILE_HEADER := by
  simp only [fileHeaderBytes, wordBytes, List.length_append, List.length_replicate, List.length_cons,
    List.length_nil, SIZEOF_INITRD_FILE_HEADER]
  unfold MAX_FNAME at *
  omega

theorem length_header {slot : Slot} (hname : slot.name.length < MAX_FNAME) (off : Nat) :
    (slot.header off).length = SIZEOF_INITRD_FILE_HEADER := by
  cases slot with
  | file name contents => exact length_fileHeaderBytes hname _ _ _ _
  | dir name n => exact length_fileHeaderBytes hname _ _ _ _

theorem length_slotHeaders (hlegal : LegalSlots slots) (off : Nat) :
    (slotHeaders slots off).length = slots.length * SIZEOF_INITRD_FILE_HEADER := by
  induction slots generalizing off with
  | nil => exact (Nat.zero_mul _).symm
  | cons slot slots ih =>
    obtain ⟨hname, hlegal⟩ := legalSlots_cons.mp hlegal
    rw [slotHeaders, List.length_append, length_header hname.1, ih hlegal, List.length_cons,
      Nat.succ_mul, Nat.add_comm]

theorem length_slotData_cons (slot : Slot) (slots : List Slot) :
    (slotData (slot :: slots)).length = slot.data.length + (slotData slots).length := by
  rw [slotData, slotData, List.flatMap_cons, List.length_append]

/-- A tree takes more of the heap than of an image. -/
theorem length_slots_le_cost (es : DirEntries) :
    es.slots.length * SIZEOF_INITRD_FILE_HEADER + (slotData es.slots).length ≤ es.cost := by
  unfold SIZEOF_INITRD_FILE_HEADER
  induction es with
  | nil => exact Nat.le_refl 0
  | file name contents rest ih =>
    have hround := le_roundUp contents.length
    have hdata : (Slot.file name contents).data.length = contents.length := rfl
    rw [DirEntries.slots, length_slotData_cons, List.length_cons, DirEntries.cost, SIZEOF_NODE]
    omega
  | dir name below rest ihbelow ihrest =>
    have hdata : (Slot.dir name below.count).data.length = 0 := rfl
    rw [DirEntries.slots, length_slotData_cons, List.length_cons, DirEntries.cost, SIZEOF_NODE]
    split <;> omega

/-! ## Reading a header back -/

theorem leBytes_wordBytes {w : Nat} (hw : w < 2 ^ 32) : Access.leBytes (wordBytes w) = w := by
  simp only [wordBytes, Access.leBytes, Nat.toUInt8_eq, UInt8.toNat_ofNat']
  omega

theorem headerWord_stored {field w : Nat} (hw : w < 2 ^ 32)
    (hstored : Access.StoredAt byte (base + o + field) (wordBytes w)) :
    headerWord byte base o field = w := by
  have hvalue := Access.leValue_of_storedAt hstored (Nat.le_of_eq (wordBytes_length w).symm)
  rw [List.take_of_length_le (Nat.le_of_eq (wordBytes_length w)), leBytes_wordBytes hw] at hvalue
  exact hvalue

/-- The words of a header that stands at offset `o`. -/
theorem words_stored (hname : name.length < MAX_FNAME) {type dirNfiles startFileOff n : Nat}
    (hstored : Access.StoredAt byte (base + o) (fileHeaderBytes name type dirNfiles startFileOff n))
    (htype : type < 2 ^ 32) (hcount : dirNfiles < 2 ^ 32) (hstart : startFileOff < 2 ^ 32)
    (hlength : n < 2 ^ 32) :
    Access.StoredAt byte (base + o) (name ++ List.replicate (MAX_FNAME - name.length) 0) ∧
      typeAt byte base o = type ∧ dirNfilesAt byte base o = dirNfiles ∧
      startFileOffAt byte base o = startFileOff ∧ lengthAt byte base o = n := by
  have hpad : (name ++ List.replicate (MAX_FNAME - name.length) (0 : UInt8)).length = 128 := by
    rw [List.length_append, List.length_replicate]
    unfold MAX_FNAME at *
    omega
  unfold fileHeaderBytes at hstored
  simp only [@Access.storedAt_append _ _ _ (wordBytes _), List.length_append, wordBytes_length]
    at hstored
  obtain ⟨⟨⟨⟨⟨⟨hpadded, -⟩, htypeAt⟩, hcountAt⟩, hstartAt⟩, hlengthAt⟩, -⟩ := hstored
  rw [← List.length_append, hpad] at htypeAt hcountAt hstartAt hlengthAt
  exact ⟨hpadded, headerWord_stored htype htypeAt, headerWord_stored hcount hcountAt,
    headerWord_stored hstart hstartAt, headerWord_stored hlength hlengthAt⟩

/-- A name with zeros behind it. -/
theorem readName_stored {image : Access.Mem} {a n : Nat} (hnul : 0 ∉ name) (hlength : name.length ≤ n)
    (hread : image.Readable a n)
    (hstored : Access.StoredAt image.byte a (name ++ List.replicate (n - name.length) 0)) :
    readName image n a = .ok name := by
  induction n generalizing a name with
  | zero => rw [List.eq_nil_of_length_eq_zero (Nat.le_zero.mp hlength), readName]
  | succ n ih =>
    obtain ⟨hfirst, hrest⟩ := hread.succ
    rw [readName, if_pos hfirst]
    cases name with
    | nil =>
      rw [List.nil_append, List.length_nil, Nat.sub_zero, List.replicate_succ, ← List.singleton_append,
        Access.storedAt_append] at hstored
      have hzero : image.byte (u32 a) = 0 := (List.cons.inj hstored.1).1
      rw [if_pos hzero]
    | cons c name =>
      rw [List.cons_append, List.length_cons, Nat.succ_sub_succ, ← List.singleton_append,
        Access.storedAt_append] at hstored
      have hc : image.byte (u32 a) = c := (List.cons.inj hstored.1).1
      have hne : c ≠ 0 := fun h => hnul (h ▸ List.mem_cons_self)
      rw [hc, if_neg hne, ih (fun h => hnul (List.mem_cons_of_mem _ h))
        (Nat.le_of_succ_le_succ hlength) hrest hstored.2]
      rfl

theorem storedAt_u32 {a : Nat} {l : List UInt8} :
    Access.StoredAt byte (u32 a) l ↔ Access.StoredAt byte a l := by
  unfold Access.StoredAt
  simp only [Access.u32_add_mod]

/-- The name in a header that stands in the image. -/
theorem readName_header (hlen : len < 2 ^ 32) (hfits : o + SIZEOF_INITRD_FILE_HEADER ≤ len)
    (hname : name.length < MAX_FNAME ∧ 0 ∉ name)
    (hstored : Access.StoredAt byte (base + o)
      (name ++ List.replicate (MAX_FNAME - name.length) 0)) :
    readName (.only byte base len) MAX_FNAME (u32 (base + o)) = .ok name := by
  refine readName_stored hname.2 (Nat.le_of_lt hname.1) ?_ (storedAt_u32.mpr hstored)
  exact fun i hi => slot_readable hlen hfits i (Nat.lt_trans hi (by decide))

/-! ## Reading a row back -/

theorem slotOffset_succ (o i : Nat) : slotOffset o (i + 1) = slotOffset o i + SIZEOF_INITRD_FILE_HEADER := by
  rw [slotOffset, slotOffset, Nat.add_one_mul, ← Nat.add_assoc]

/-- Entries are read back from the headers of slots that begin with them. -/
theorem Laid.row (h : Laid slots es) (hlen : len < 2 ^ 32) (hlegal : LegalSlots slots) {i : Nat}
    (hheaders : Access.StoredAt byte (base + slotOffset o i) (slotHeaders slots off))
    (hin : slotOffset o i + slots.length * SIZEOF_INITRD_FILE_HEADER ≤ len)
    (hdata : Access.StoredAt byte (base + off) (slotData slots))
    (hend : off + (slotData slots).length ≤ len) :
    Row (.only byte base len) base (u32 (base + o)) i es.count es := by
  induction h generalizing o i off with
  | nil => exact .nil _ _
  | @file slots rest name contents _ ih =>
    obtain ⟨hname, hlegal⟩ := legalSlots_cons.mp hlegal
    have hheader := length_header hname.1 off
    rw [slotHeaders, Access.storedAt_append, hheader, Nat.add_assoc, ← slotOffset_succ] at hheaders
    rw [List.length_cons, Nat.succ_mul] at hin
    rw [length_slotData_cons] at hend
    rw [slotData, List.flatMap_cons, Access.storedAt_append, Nat.add_assoc] at hdata
    have hcontents : (Slot.file name contents).data = contents := rfl
    rw [hcontents] at hheaders hend hdata
    have hslot : slotOffset o i + SIZEOF_INITRD_FILE_HEADER ≤ len := by omega
    obtain ⟨hpadded, htype, -, hstart, hlength⟩ := words_stored hname.1 hheaders.1 (by decide)
      (by decide) (by omega) (by omega)
    refine .file ?_ ⟨?_, ?_, off, ?_, ?_⟩ (ih hlegal hheaders.2 ?_ hdata.2 (by omega))
    · rw [childHeader_u32, headerType]
      exact (readWord_header hlen hslot (by decide)).trans (congrArg _ htype)
    · rw [childHeader_u32]
      exact readName_header hlen hslot hname hpadded
    · rw [childHeader_u32, headerLength]
      exact (readWord_header hlen hslot (by decide)).trans (congrArg _ hlength)
    · rw [childHeader_u32, headerStartFileOff]
      exact (readWord_header hlen hslot (by decide)).trans (congrArg _ hstart)
    · rw [readBytes_of_readable (readable_only hlen (by omega))]
      exact congrArg _ hdata.1
    · rw [slotOffset_succ]
      omega
  | @dir slots below rest name hlaid _ ihbelow ihrest =>
    obtain ⟨hname, hlegal⟩ := legalSlots_cons.mp hlegal
    have hheader := length_header hname.1 off
    have hcountBelow := hlaid.count_le_bytes
    rw [slotHeaders, Access.storedAt_append, hheader, Nat.add_assoc, ← slotOffset_succ] at hheaders
    rw [List.length_cons, Nat.succ_mul] at hin
    replace hdata : Access.StoredAt byte (base + off) (slotData slots) := hdata
    replace hend : off + (slotData slots).length ≤ len := hend
    have hslot : slotOffset o i + SIZEOF_INITRD_FILE_HEADER ≤ len := by omega
    obtain ⟨hpadded, htype, hcount, -⟩ := words_stored hname.1 hheaders.1 (by decide)
      (by omega) (by decide) (by decide)
    -- What is in the directory and what comes after it stand in the same slots.
    have hfirst : slotOffset (slotOffset o i) 0 = slotOffset o (i + 1) := by
      rw [slotOffset_succ, slotOffset, Nat.zero_mul, Nat.add_zero]
    have hrow : Row (.only byte base len) base (childHeader (u32 (base + o)) i) 0 below.count below := by
      rw [childHeader_u32]
      refine ihbelow hlegal ?_ ?_ hdata hend
      · rw [hfirst]
        exact hheaders.2
      · rw [hfirst, slotOffset_succ]
        omega
    have hrest : Row (.only byte base len) base (u32 (base + o)) (i + 1) rest.count rest := by
      refine ihrest hlegal hheaders.2 ?_ hdata hend
      rw [slotOffset_succ]
      omega
    refine .dir ?_ ?_ ?_ hrow hrest
    · rw [childHeader_u32, headerType]
      exact (readWord_header hlen hslot (by decide)).trans (congrArg _ htype)
    · rw [childHeader_u32]
      exact readName_header hlen hslot hname hpadded
    · rw [childHeader_u32, headerDirNfiles]
      exact (readWord_header hlen hslot (by decide)).trans (congrArg _ hcount)

/-! ## The whole image -/

/-- A memory in which an image stands at `base`. -/
def imageMem (image : List UInt8) (base : Nat) : Access.Mem :=
  .only (fun a => image.getD (sub32 (u32 a) base) 0) base image.length

theorem storedAt_imageMem (image : List UInt8) (base : Nat) (hlen : image.length < 2 ^ 32) :
    Access.StoredAt (fun a => image.getD (sub32 (u32 a) base) 0) base image := by
  refine List.ext_getElem (by rw [List.length_map, List.length_range]) fun i hi hi' => ?_
  have hoff : sub32 (u32 (u32 (base + i))) base = i := by
    unfold sub32 u32
    omega
  rw [List.getElem_map, List.getElem_range]
  dsimp only
  rw [hoff, List.getD_eq_getElem _ _ hi']

theorem length_image (hlegal : es.LegalNames) :
    es.image.length = es.dataStart + (slotData es.slots).length := by
  have hheader := length_fileHeaderBytes (show [].length < MAX_FNAME by decide) INITRD_FTYPE_DIR es.count 0 0
  simp only [DirEntries.image, DirEntries.dataStart, List.length_append, hheader, imageHeaderBytes,
    wordBytes_length, length_slotHeaders (legalSlots_slots hlegal), SIZEOF_INITRD_HEADER]
  omega

/-- The image of a tree that packs holds it, wherever the image stands. -/
theorem image_holds (hpacks : es.Packs) (hlegal : es.LegalNames) (base : Nat)
    (hlen : es.image.length < 2 ^ 32) : ImageHolds (imageMem es.image base) base es := by
  have hstored := storedAt_imageMem es.image base hlen
  have hlength := length_image hlegal
  have hlegal := legalSlots_slots hlegal
  have hheaders := length_slotHeaders hlegal es.dataStart
  have hcount := hpacks.laid.count_le_bytes
  have hroot := length_fileHeaderBytes (show [].length < MAX_FNAME by decide) INITRD_FTYPE_DIR es.count 0 0
  have hstart : es.dataStart = SIZEOF_INITRD_HEADER + SIZEOF_INITRD_FILE_HEADER +
      es.slots.length * SIZEOF_INITRD_FILE_HEADER := rfl
  have hheader : (imageHeaderBytes (es.dataStart + (slotData es.slots).length) es.count).length =
      SIZEOF_INITRD_HEADER := rfl
  have hslot : slotOffset SIZEOF_INITRD_HEADER 0 = SIZEOF_INITRD_HEADER + SIZEOF_INITRD_FILE_HEADER := by
    rw [slotOffset, Nat.zero_mul, Nat.add_zero]
  unfold imageMem
  generalize hbyte : (fun a => es.image.getD (sub32 (u32 a) base) 0) = byte at *
  rw [DirEntries.image, Access.storedAt_append, Access.storedAt_append, Access.storedAt_append, hheader,
    hroot] at hstored
  obtain ⟨hmagic, hrootStored, hrow, hdata⟩ := hstored
  refine ⟨?_, es.count, ?_, ?_⟩
  · have hread : (Access.Mem.only byte base es.image.length).Readable base 4 :=
      readable_only (o := 0) hlen (by rw [hlength, hstart]; unfold SIZEOF_INITRD_HEADER; omega)
    rw [readWord_of_readable hread]
    rw [imageHeaderBytes, List.append_assoc, Access.storedAt_append] at hmagic
    have hword : Access.StoredAt byte (base + 0 + 0) (wordBytes INITRD_MAGIC) := hmagic.1
    exact congrArg _ (headerWord_stored (by decide) hword)
  · rw [headerDirNfiles, readWord_header hlen (by omega) (by decide)]
    obtain ⟨-, -, hnfiles, -⟩ := words_stored (show [].length < MAX_FNAME by decide) hrootStored
      (by decide) (by omega) (by decide) (by decide)
    exact congrArg _ hnfiles
  · rw [Nat.add_assoc, ← hslot] at hrow
    have hoff : base + SIZEOF_INITRD_HEADER + SIZEOF_INITRD_FILE_HEADER +
        (slotHeaders es.slots es.dataStart).length = base + es.dataStart := by omega
    rw [hoff] at hdata
    exact hpacks.laid.row hlen hlegal hrow (by omega) hdata (by omega)

end TalOS
