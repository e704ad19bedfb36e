-- SUMMARY: The operations of ramfs that change the tree: init, creating, writing and deleting nodes.
import TalOS.Coresys.Vfs

/-!
# RAM file system

The children of a directory are a list: `children` points to the first one,
`next` to the following one. Every directory starts with the links `.` and `..`.
-/

open MachineInt

namespace TalOS

/-- `sizeof(ramfs_file_header_t)` on IA32. -/
def SIZEOF_NODE : Nat := 200

/-- Address of the static variable `root` of ramfs, below everything on the heap. -/
def ROOT : Nat := 1

/-- The error codes of ramfs. -/
inductive RfsErr where
  | ok
  | nok
  | fileAlreadyExists
deriving Repr, DecidableEq

/-- `ramfs_allocNode`: a node of zeros, or `NULL`. -/
def ramfsAllocNode (s : Ramfs) : Nat × Ramfs :=
  let r := kmalloc s.heap SIZEOF_NODE
  let s := { s with heap := r.2 }
  if r.1 = 0 then (0, s)
  else (r.1, { s with node := fun q => if q = r.1 then zeroNode else s.node q })

/-- `kfree` -/
def Ramfs.kfree (s : Ramfs) (ptr : Nat) : Ramfs := { s with heap := TalOS.kfree s.heap ptr }

/-- `ramfs_deallocNode`: the memory keeps its contents. -/
def ramfsDeallocNode (s : Ramfs) (node : Nat) : Ramfs :=
  { (s.kfree (s.node node).filePtr).kfree node with deallocated := s.deallocated ++ [node] }

/-- `fs_get_simlink`: make the node at `simlink` a link. -/
def fsGetSimlink (s : Ramfs) (simlinkName : List UInt8) (inNode simlink : Nat) : Option Ramfs :=
  let r := fsNewInoId s
  r.2.update simlink fun n =>
    { n with
      name := (strncpy simlinkName MAX_FNAME).bytes
      ino := r.1
      type := .symlink
      length := 0
      callbacks := noCallbacks
      nodePtr := inNode }

/-- The loop of `ramfs_getLastChild`. -/
def lastChildLoop (s : Ramfs) : Nat → Nat → Option Nat
  | 0, _ => none
  | fuel + 1, currChild =>
    (s.deref currChild).bind fun n =>
      if n.next = 0 then some currChild else lastChildLoop s fuel n.next

/-- `ramfs_getLastChild` -/
def ramfsGetLastChild (s : Ramfs) (parent : Nat) : Option Nat :=
  (s.deref parent).bind fun n => lastChildLoop s POINTERS n.children

/-- Give a directory without children its links `.` and `..`. -/
def linkDots (s : Ramfs) (dir currentDirSimlink parentDirSimlink : Nat) : Option Ramfs :=
  (s.deref dir).bind fun n =>
    if n.children = 0 then
      (s.update dir fun n => { n with children := currentDirSimlink }).bind fun s =>
        (s.update currentDirSimlink fun n => { n with next := parentDirSimlink }).bind fun s =>
          s.update parentDirSimlink fun n => { n with next := 0 }
    else some s

/-- `ramfs_init` -/
def ramfsInit (s : Ramfs) : Option (Ramfs × RfsErr) :=
  let r := fsNewInoId s
  (r.2.update ROOT fun n =>
    { n with
      name := []
      ino := r.1
      type := .directory
      length := 0
      callbacks := dirCallbacks
      nodePtr := 0 }).bind fun s =>
    let current := ramfsAllocNode s
    if current.1 = 0 then some (current.2, .nok)
    else
      (fsGetSimlink current.2 DOT_NAME ROOT current.1).bind fun s =>
        let parent := ramfsAllocNode s
        if parent.1 = 0 then some (parent.2.kfree current.1, .nok)
        else
          (fsGetSimlink parent.2 DOTDOT_NAME ROOT parent.1).bind fun s =>
            (linkDots s ROOT current.1 parent.1).map fun s => ({ s with root := ROOT }, .ok)

/-! ## Creating -/

/-- The checks of `ramfs_mkDir` and `ramfs_newRegFile`: the directory to create
the entry in, or the error. -/
def creationParent (s : Ramfs) (name parentAbsPath : List UInt8) : Option (RfsErr × Nat) :=
  if fsCheckFileName name = false then some (.nok, 0)
  else
    (fsGetNode s 0 parentAbsPath).bind fun parentDir =>
      if parentDir = 0 then some (.nok, 0)
      else
        (fsFind s parentDir name).bind fun found =>
          if found ≠ 0 then some (.fileAlreadyExists, 0) else some (.ok, parentDir)

/-- Fill a new node in. -/
def fillNode (s : Ramfs) (node : Nat) (name : List UInt8) (type : FType) (callbacks : Callbacks) :
    Option Ramfs :=
  let r := fsNewInoId s
  r.2.update node fun n =>
    { n with
      name := (strncpy name MAX_FNAME).bytes
      ino := r.1
      type := type
      length := 0
      callbacks := callbacks
      nodePtr := 0 }

/-- `ramfs_getLastChild(parentDir)->next = node` -/
def appendChild (s : Ramfs) (parentDir node : Nat) : Option Ramfs :=
  (ramfsGetLastChild s parentDir).bind fun last => s.update last fun n => { n with next := node }

/-- `ramfs_mkDir`: the state, the new node or `NULL`, and the error. The labels at its end free the
directory and the first link, or the first link only. -/
def ramfsMkDir (s : Ramfs) (dirName parentDirAbsPath : List UInt8) :
    Option (Ramfs × Nat × RfsErr) :=
  (creationParent s dirName parentDirAbsPath).bind fun parent =>
    if parent.1 ≠ .ok then some (s, 0, parent.1)
    else
      let newDir := ramfsAllocNode s
      if newDir.1 = 0 then some (newDir.2, 0, .nok)
      else
        (fillNode newDir.2 newDir.1 dirName .directory dirCallbacks).bind fun s =>
          let current := ramfsAllocNode s
          if current.1 = 0 then some ((current.2.kfree newDir.1).kfree current.1, 0, .nok)
          else
            (fsGetSimlink current.2 DOT_NAME newDir.1 current.1).bind fun s =>
              let up := ramfsAllocNode s
              if up.1 = 0 then some (up.2.kfree current.1, 0, .nok)
              else
                (fsGetSimlink up.2 DOTDOT_NAME parent.2 up.1).bind fun s =>
                  (linkDots s newDir.1 current.1 up.1).bind fun s =>
                    (appendChild s parent.2 newDir.1).map fun s => (s, newDir.1, .ok)

/-- `ramfs_newRegFile` -/
def ramfsNewRegFile (s : Ramfs) (fileName parentDirAbsPath : List UInt8) :
    Option (Ramfs × Nat × RfsErr) :=
  (creationParent s fileName parentDirAbsPath).bind fun parent =>
    if parent.1 ≠ .ok then some (s, 0, parent.1)
    else
      let newRegFile := ramfsAllocNode s
      if newRegFile.1 = 0 then some (newRegFile.2, 0, .nok)
      else
        (fillNode newRegFile.2 newRegFile.1 fileName .regular regCallbacks).bind fun s =>
          (appendChild s parent.2 newRegFile.1).map fun s => (s, newRegFile.1, .ok)

/-! ## Writing and reading -/

/-- `ramfs_write`; the result is the number of bytes, or -1. Sums that wrap make the code write behind
the end of the file or of the heap; that has no result. -/
def ramfsWrite (s : Ramfs) (node : Nat) (buf : List UInt8) (offset : Nat) :
    Option (Ramfs × Int) :=
  if node = 0 ∨ (s.node node).callbacks.readFn = false ∨ (s.node node).type ≠ .regular ∨
      offset > (s.node node).length then some (s, -1)
  else
    let newLen := u32 (buf.length + offset)
    if newLen > (s.node node).length then
      let r := krealloc s.heap (s.node node).filePtr newLen
      let s := { s with heap := r.2 }
      if r.1 = 0 then some (s.kfree r.1, -1)
      else if buf.length + offset > newLen ∨ r.1 + newLen > s.heap.limit then none
      else
        (s.update node fun n => { n with filePtr := r.1, length := newLen }).map fun s =>
          ({ s with heap := { s.heap with mem := Memory.writeAt s.heap.mem (r.1 + offset) buf } },
            buf.length)
    else if buf.length + offset > (s.node node).length then none
    else
      some
        ({ s with
            heap := { s.heap with
              mem := Memory.writeAt s.heap.mem ((s.node node).filePtr + offset) buf } },
          buf.length)

/-- `ramfs_read`: the bytes stored in the buffer, or `none` inside for -1. -/
def ramfsRead (s : Ramfs) (node nbyte offset : Nat) : Option (List UInt8) :=
  if node = 0 ∨ (s.node node).callbacks.readFn = false ∨ (s.node node).type ≠ .regular ∨
      offset > (s.node node).length then none
  else
    let toReadLen :=
      if u32 (nbyte + offset) > (s.node node).length then (s.node node).length - offset else nbyte
    some (Memory.readAt s.heap.mem ((s.node node).filePtr + offset) toReadLen)

/-! ## Deleting -/

/-- `ramfs_inter_deleteNode`; it never fails. -/
def ramfsInterDeleteNode : Nat → Nat → Ramfs → Option Ramfs
  | 0, _, _ => none
  | fuel + 1, node, s =>
    (s.deref node).bind fun n =>
      (if n.children ≠ 0 then ramfsInterDeleteNode fuel n.children s else some s).bind fun s =>
        (if (s.node node).next ≠ 0 then ramfsInterDeleteNode fuel (s.node node).next s
          else some s).map fun s => ramfsDeallocNode s node

/-- The search of `ramfs_deleteNode` for the child before `node`; without one the
list is left alone. -/
def unlinkLoop (s : Ramfs) (node : Nat) : Nat → Nat → Nat → Option (Option Ramfs)
  | 0, _, _ => none
  | fuel + 1, prev, curr =>
    if curr = 0 then some none
    else if curr = node then (s.update prev fun n => { n with next := (s.node node).next }).map some
    else unlinkLoop s node fuel curr (s.node curr).next

/-- Take `node` out of the children of `parentDir`. -/
def unlinkChild (s : Ramfs) (parentDir node : Nat) : Option (Option Ramfs) :=
  if (s.node parentDir).children = node then
    (s.update parentDir fun n => { n with children := (s.node node).next }).map some
  else
    (s.deref (s.node parentDir).children).bind fun first =>
      unlinkLoop s node POINTERS (s.node parentDir).children first.next

/-- `ramfs_deleteNode` -/
def ramfsDeleteNode (s : Ramfs) (nodeAbsPath : List UInt8) : Option (Ramfs × RfsErr) :=
  (fsGetParentPath nodeAbsPath).bind fun parentPath =>
    match parentPath with
    | none => some (s, .nok)
    | some parentPath =>
      (fsGetNode s 0 parentPath).bind fun parentDir =>
        if parentDir = 0 then some (s, .nok)
        else
          (fsGetNode s 0 nodeAbsPath).bind fun node =>
            if node = 0 then some (s, .nok)
            else
              (unlinkChild s parentDir node).bind fun unlinked =>
                match unlinked with
                | none => some (s, .nok)
                | some s => (ramfsInterDeleteNode POINTERS node s).map fun s => (s, .ok)

end TalOS
