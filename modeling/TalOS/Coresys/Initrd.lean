-- SUMMARY: Loading an initrd image into ramfs: `ramfs_loadInitrd` and the functions it is made of.
import TalOS.Coresys.Ramfs
import TalOS.Lib.Access

/-!
# Initial RAM disk

An image starts with a header of three words, and behind it stands the header of the
root directory. The headers of the `dir_nfiles` entries of a directory are the slots
right behind its own header. The image is a memory of its own, of which only a part may
be read; loading stores nothing there.
-/

open MachineInt

namespace TalOS

def INITRD_MAGIC : Nat := 0x696E7264
def INITRD_FTYPE_REGULAR : Nat := 1
def INITRD_FTYPE_DIR : Nat := 2

/-- `sizeof(initrd_header)` -/
def SIZEOF_INITRD_HEADER : Nat := 12

/-- `sizeof(initrd_file_header)` -/
def SIZEOF_INITRD_FILE_HEADER : Nat := 152

/-- The bytes of an `initrd_header`. -/
def imageHeaderBytes (initrdLen nfiles : Nat) : List UInt8 :=
  wordBytes INITRD_MAGIC ++ wordBytes initrdLen ++ wordBytes nfiles

/-- The bytes of an `initrd_file_header`; `id` and `checksum` are 0. -/
def fileHeaderBytes (name : List UInt8) (type dirNfiles startFileOff length : Nat) : List UInt8 :=
  name ++ List.replicate (MAX_FNAME - name.length) 0 ++ wordBytes 0 ++ wordBytes type ++
    wordBytes dirNfiles ++ wordBytes startFileOff ++ wordBytes length ++ wordBytes 0

/-- Why loading has no result: a byte outside the image is read, what the code does in the file
system is undefined (a `NULL` pointer is followed, a block is overrun), or the fuel is used up. -/
inductive LoadStop where
  | outside
  | undefined
  | outOfFuel
deriving Repr, DecidableEq

/-- A step in the file system. -/
def defined {α : Type} : Option α → Except LoadStop α
  | some a => .ok a
  | none => .error .undefined

/-! ## Reading the image -/

/-- A read that is undefined lies outside the image. -/
def inside {α : Type} : Except Access.Stop α → Except LoadStop α
  | .ok a => .ok a
  | .error _ => .error .outside

/-- Read a `uint32_t`. -/
def readWord (image : Access.Mem) (a : Nat) : Except LoadStop Nat := inside (Access.load image a 4)

/-- Read `n` bytes. -/
def readBytes (image : Access.Mem) (a n : Nat) : Except LoadStop (List UInt8) :=
  inside (Access.loadBytes image a n)

/-- What `strncpy` reads of an array of `n` characters: nothing behind the first NUL. -/
def readName (image : Access.Mem) : Nat → Nat → Except LoadStop (List UInt8)
  | 0, _ => .ok []
  | n + 1, a =>
    if image.readable (u32 a) then
      if image.byte (u32 a) = 0 then .ok []
      else (readName image n (a + 1)).map (image.byte (u32 a) :: ·)
    else .error .outside

/-- The members of the `initrd_file_header` at address `h`. -/
def headerType (image : Access.Mem) (h : Nat) : Except LoadStop Nat := readWord image (h + 132)
def headerDirNfiles (image : Access.Mem) (h : Nat) : Except LoadStop Nat := readWord image (h + 136)
def headerStartFileOff (image : Access.Mem) (h : Nat) : Except LoadStop Nat :=
  readWord image (h + 140)
def headerLength (image : Access.Mem) (h : Nat) : Except LoadStop Nat := readWord image (h + 144)

/-- `&initrdchildren[i]` -/
def childHeader (h i : Nat) : Nat :=
  u32 (h + SIZEOF_INITRD_FILE_HEADER + i * SIZEOF_INITRD_FILE_HEADER)

/-! ## Loading one entry -/

/-- Fill the node of a file or a directory in. -/
def fillLoaded (s : Ramfs) (node : Nat) (name : List UInt8) (type : FType) (length : Nat) :
    Option Ramfs :=
  let r := fsNewInoId s
  r.2.update node fun n =>
    { n with
      name := name
      ino := r.1
      type := type
      length := length
      callbacks := if type = .regular then regCallbacks else dirCallbacks
      nodePtr := 0
      next := 0
      children := 0 }

/-- The `memcpy` of a file's data into its block; behind the block it is undefined. -/
def copyData (s : Ramfs) (block : Nat) (data : List UInt8) : Option Ramfs :=
  if block + data.length > s.heap.limit then none
  else some { s with heap := { s.heap with mem := Memory.writeAt s.heap.mem block data } }

/-- `LoadInitrdRegFile`: the state, and the new node or `NULL`. -/
def loadInitrdRegFile (image : Access.Mem) (initrdBase h : Nat) (s : Ramfs) :
    Except LoadStop (Ramfs × Nat) :=
  let node := ramfsAllocNode s
  if node.1 = 0 then .ok (node.2, 0)
  else do
    let length ← headerLength image h
    let name ← readName image MAX_FNAME h
    let s ← defined (fillLoaded node.2 node.1 name .regular length)
    let block := kmalloc s.heap length
    let s ← defined ({ s with heap := block.2 }.update node.1 fun n => { n with filePtr := block.1 })
    if block.1 = 0 then .ok (s.kfree node.1, 0)
    else do
      let start ← headerStartFileOff image h
      let data ← readBytes image (initrdBase + start) length
      let s ← defined (copyData s block.1 data)
      return (s, node.1)

/-- `LoadInitrdDirFile` -/
def loadInitrdDirFile (image : Access.Mem) (h : Nat) (s : Ramfs) : Except LoadStop (Ramfs × Nat) :=
  let node := ramfsAllocNode s
  if node.1 = 0 then .ok (node.2, 0)
  else do
    let name ← readName image MAX_FNAME h
    let s ← defined (fillLoaded node.2 node.1 name .directory 0)
    let s ← defined (s.update node.1 fun n => { n with filePtr := 0 })
    return (s, node.1)

/-! ## Loading a directory -/

/-- Put the links `.` and `..` into a directory. -/
def storeDots (s : Ramfs) (dir currentDirSimlink parentDirSimlink : Nat) : Option Ramfs :=
  (s.update dir fun n => { n with children := currentDirSimlink }).bind fun s =>
    (s.update currentDirSimlink fun n => { n with next := parentDirSimlink }).bind fun s =>
      s.update parentDirSimlink fun n => { n with next := 0 }

/-- What `LoadInitrdFiles` does before its loop: a directory without children gets its links. The
result is the link `..`, or `none` where the function returns `VFS_T_NOK`. The label at its end frees
the directory. -/
def loadDots (s : Ramfs) (parent currentDir : Nat) : Option (Ramfs × Option Nat) :=
  (s.deref currentDir).bind fun n =>
    if n.children = 0 then
      let current := ramfsAllocNode s
      if current.1 = 0 then some (current.2, none)
      else
        (fsGetSimlink current.2 DOT_NAME currentDir current.1).bind fun s =>
          let up := ramfsAllocNode s
          if up.1 = 0 then some (up.2.kfree currentDir, none)
          else
            (fsGetSimlink up.2 DOTDOT_NAME parent up.1).bind fun s =>
              (storeDots s currentDir current.1 up.1).map fun s => (s, some up.1)
    else (s.deref n.children).map fun first => (s, some first.next)

/-- Append the node `curr` to what has been loaded: behind `..`, or behind the node before it. -/
def linkLoaded (s : Ramfs) (parentDirSimlink prev curr : Nat) : Option Ramfs :=
  (s.deref parentDirSimlink).bind fun n =>
    if n.next = 0 then s.update parentDirSimlink fun n => { n with next := curr }
    else s.update prev fun n => { n with next := curr }

mutual

/-- `LoadInitrdFiles` -/
def loadInitrdFiles (image : Access.Mem) (initrdBase : Nat) :
    Nat → Nat → Nat → Nat → Ramfs → Except LoadStop (Ramfs × Int)
  | 0, _, _, _, _ => .error .outOfFuel
  | fuel + 1, parent, currentDir, h, s => do
    let dots ← defined (loadDots s parent currentDir)
    match dots.2 with
    | none => return (dots.1, VFS_T_NOK)
    | some up => loadChildren image initrdBase fuel currentDir up h 0 0 dots.1

/-- The loop of `LoadInitrdFiles`, from the entry `i` on. -/
def loadChildren (image : Access.Mem) (initrdBase : Nat) :
    Nat → Nat → Nat → Nat → Nat → Nat → Ramfs → Except LoadStop (Ramfs × Int)
  | 0, _, _, _, _, _, _ => .error .outOfFuel
  | fuel + 1, currentDir, up, h, i, prev, s => do
    let dirNfiles ← headerDirNfiles image h
    if i < dirNfiles then do
      let type ← headerType image (childHeader h i)
      if type = INITRD_FTYPE_REGULAR then do
        let curr ← loadInitrdRegFile image initrdBase (childHeader h i) s
        let s ← defined (linkLoaded curr.1 up prev curr.2)
        loadChildren image initrdBase fuel currentDir up h (i + 1) curr.2 s
      else if type = INITRD_FTYPE_DIR then do
        let curr ← loadInitrdDirFile image (childHeader h i) s
        let below ← loadInitrdFiles image initrdBase fuel currentDir curr.2 (childHeader h i) curr.1
        if below.2 ≠ VFS_T_OK then return (below.1, VFS_T_NOK)
        else do
          let s ← defined (linkLoaded below.1 up prev curr.2)
          loadChildren image initrdBase fuel currentDir up h (i + 1) curr.2 s
      else loadChildren image initrdBase fuel currentDir up h (i + 1) prev s
    else return (s, VFS_T_OK)

end

/-- `ramfs_loadInitrd` of the image at `initrdPtr` into the directory `path`. -/
def ramfsLoadInitrd (image : Access.Mem) (fuel initrdPtr : Nat) (path : List UInt8) (s : Ramfs) :
    Except LoadStop (Ramfs × Int) := do
  let magic ← readWord image initrdPtr
  if magic ≠ INITRD_MAGIC then return (s, VFS_T_NOK)
  else do
    let currDir ← defined (fsGetNode s 0 path)
    if currDir = 0 ∨ (s.node currDir).type ≠ .directory then return (s, VFS_T_NOK)
    else do
      let dot ← defined (s.deref (s.node currDir).children)
      let dotdot ← defined (s.deref dot.next)
      loadInitrdFiles image initrdPtr fuel dotdot.nodePtr currDir (u32 (initrdPtr + SIZEOF_INITRD_HEADER)) s

end TalOS
