-- SUMMARY: Nodes of the file system, and the functions of `vfs.c`: lookup by path, file names, parent paths.
import TalOS.Libk.Kheap
import TalOS.Libk.String

/-!
# Virtual file system

Nodes live at addresses; a pointer is an address and 0 is `NULL`. Every node is
a `ramfs_file_header_t`, whose first part is its `fs_node_t`. A function has no
result where the C code has no defined one: a `NULL` pointer is followed, memory
outside an array is read, or a chain of pointers never ends.
-/

open MachineInt

namespace TalOS

def MAX_FNAME : Nat := 128
def MAX_PATH : Nat := 255

def VFS_T_OK : Int := 0
def VFS_T_NOK : Int := -1

/-- No chain of different 32-bit pointers is longer. -/
def POINTERS : Nat := 2 ^ 32

/-- `fs_type_t` -/
inductive FType where
  | regular
  | directory
  | blockdev
  | chardev
  | fifo
  | symlink
  | sock
deriving Repr, DecidableEq

/-- Which callbacks of a node are set; all of them are functions of ramfs. -/
structure Callbacks where
  openFn : Bool
  closeFn : Bool
  readFn : Bool
  writeFn : Bool
  readdirFn : Bool
  findFn : Bool
deriving Repr, DecidableEq

def noCallbacks : Callbacks := ⟨false, false, false, false, false, false⟩
def dirCallbacks : Callbacks := ⟨false, false, false, false, true, true⟩
def regCallbacks : Callbacks := ⟨true, true, true, true, false, false⟩

/-- `ramfs_file_header_t`. The name is what stands before the first NUL of the
array of `MAX_FNAME` characters; a name as long as the array has no NUL. -/
structure RamfsFileHeader where
  name : List UInt8
  ino : Nat
  type : FType
  length : Nat
  callbacks : Callbacks
  nodePtr : Nat
  filePtr : Nat
  next : Nat
  children : Nat
deriving Repr, DecidableEq

/-- A node of zeros. -/
def zeroNode : RamfsFileHeader := ⟨[], 0, .regular, 0, noCallbacks, 0, 0, 0, 0⟩

/-- What is read from `name` on: behind the array comes `ino`, lowest byte first. -/
def RamfsFileHeader.nameBytes (n : RamfsFileHeader) : Nat → UInt8 := fun i =>
  if i < MAX_FNAME then n.name.getD i 0 else (n.ino / 2 ^ (8 * (i - MAX_FNAME))).toUInt8

/-- The file system: the heap, the nodes, the variables of `vfs.c` and, for the
record, the nodes handed to `kfree` in order. -/
structure Ramfs where
  heap : Kheap
  node : Nat → RamfsFileHeader
  root : Nat
  lastIno : Nat
  deallocated : List Nat

/-- Follow a pointer. -/
def Ramfs.deref (s : Ramfs) (p : Nat) : Option RamfsFileHeader :=
  if p = 0 then none else some (s.node p)

/-- Store into the node behind a pointer. -/
def Ramfs.update (s : Ramfs) (p : Nat) (f : RamfsFileHeader → RamfsFileHeader) : Option Ramfs :=
  if p = 0 then none else some { s with node := fun q => if q = p then f (s.node p) else s.node q }

/-- `fs_new_ino_id` -/
def fsNewInoId (s : Ramfs) : Nat × Ramfs := (s.lastIno, { s with lastIno := u32 (s.lastIno + 1) })

def DOT_NAME : List UInt8 := [0x2e]
def DOTDOT_NAME : List UInt8 := [0x2e, 0x2e]

/-! ## Lookup -/

/-- `vfs_nodeFromSimlink` -/
def vfsNodeFromSimlink (s : Ramfs) : Nat → Nat → Option Nat
  | 0, _ => none
  | fuel + 1, p =>
    (s.deref p).bind fun n =>
      if n.type = .symlink then vfsNodeFromSimlink s fuel n.nodePtr else some p

/-- The do-while loop of `ramfs_find`. -/
def findLoop (s : Ramfs) (name : List UInt8) : Nat → Nat → Option Nat
  | 0, _ => none
  | fuel + 1, p =>
    (s.deref p).bind fun n =>
      if strncmp n.nameBytes (stringBytes name) MAX_FNAME 0 = 0 then some p
      else if n.next = 0 then some 0
      else findLoop s name fuel n.next

/-- `ramfs_find` -/
def ramfsFind (s : Ramfs) (dirNode : Nat) (name : List UInt8) : Option Nat :=
  if dirNode = 0 then some 0
  else
    let n := s.node dirNode
    if n.callbacks.readdirFn = false ∨ n.type ≠ .directory then some 0
    else if n.children = 0 then some 0
    else findLoop s name POINTERS n.children

/-- `fs_find` -/
def fsFind (s : Ramfs) (dirNode : Nat) (name : List UInt8) : Option Nat :=
  (vfsNodeFromSimlink s POINTERS dirNode).bind fun dirNode =>
    if (s.node dirNode).callbacks.findFn then ramfsFind s dirNode name else some 0

/-- The token loop of `fs_get_node`, with the position `strtok_r` has saved. -/
def walkTokens (s : Ramfs) : Nat → Option CharBuf → Nat → Option Nat
  | 0, _, _ => none
  | fuel + 1, saved, currNode =>
    (strtokNext saved).bind fun r =>
      match r.1 with
      | none => some currNode
      | some token =>
        (fsFind s currNode token).bind fun next =>
          if next = 0 then some 0 else walkTokens s fuel r.2 next

/-- `fs_get_node`. Every token is at least one byte of the path. -/
def fsGetNode (s : Ramfs) (current : Nat) (path : List UInt8) : Option Nat :=
  let intPath := strncpy path MAX_PATH
  let start := if path.head? = some SLASH then s.root else current
  if start = 0 then some 0 else walkTokens s (path.length + 2) (some intPath) start

/-! ## Names and paths -/

/-- `fs_checkFileName` -/
def fsCheckFileName (fileName : List UInt8) : Bool :=
  strncmp (stringBytes fileName) (stringBytes DOT_NAME) MAX_FNAME 0 ≠ 0 ∧
    strncmp (stringBytes fileName) (stringBytes DOTDOT_NAME) MAX_FNAME 0 ≠ 0 ∧
    SLASH ∉ fileName.take MAX_FNAME

/-- `fs_remove_last_slash` on an array whose first `len` characters are `path`. -/
def fsRemoveLastSlash (path : List UInt8) : Option (List UInt8) :=
  if path = [] then none
  else if path.getLast? = some SLASH then some path.dropLast else some path

/-- The token loop of `fs_getFileName`: the last token. -/
def lastToken : Nat → Option CharBuf → Option (List UInt8) → Option (Option (List UInt8))
  | 0, _, _ => none
  | fuel + 1, saved, prevTokenNode =>
    (strtokNext saved).bind fun r =>
      match r.1 with
      | none => some prevTokenNode
      | some token => lastToken fuel r.2 (some token)

/-- The array `intPath` of `fs_getFileName` and `fs_getParentPath`: removing the
last slash puts a NUL in its place. -/
def intPathOf (filePath : List UInt8) : Option CharBuf :=
  let intPath := strncpy filePath MAX_FNAME
  (fsRemoveLastSlash intPath.bytes).map fun bytes =>
    ⟨bytes, intPath.terminated || bytes.length < intPath.bytes.length⟩

/-- `fs_getFileName`: the last component. The result points into an array of the
function that has returned; it is read before anything is stored there. -/
def fsGetFileName (filePath : List UInt8) : Option (Option (List UInt8)) :=
  (intPathOf filePath).bind fun intPath =>
    lastToken (intPath.bytes.length + 2) (some intPath) none

/-- `fs_getParentPath`; `none` inside is `VFS_T_NOK`. -/
def fsGetParentPath (filePath : List UInt8) : Option (Option (List UInt8)) :=
  (intPathOf filePath).bind fun intPath =>
    (fsGetFileName filePath).bind fun fileName =>
      match fileName with
      | none => some none
      | some fileName =>
        let parentPath := intPath.bytes.take
          (intPath.bytes.length - min fileName.length MAX_FNAME)
        if parentPath.length ≠ 1 then (fsRemoveLastSlash parentPath).map some
        else some (some parentPath)

end TalOS
