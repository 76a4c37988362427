import Sbfs.PathResolver

/-! # `vfs.cpp`

The callbacks that FUSE runs.  Each takes the global state of the file, the `path_resolver`
and the `fd_manager`, and returns its new value with the result; `rt_assert` is empty in
every build.  The callbacks that only read or set attributes are in `Sbfs.Attributes`. -/

namespace Sbfs

/-! ## File descriptors -/

/-- `FDManager`.  A descriptor may hold an inode that was never set; such inodes share one key
of `reference_count`. -/
structure FDManager where
  fdManager : Nat → Option (Option Position)
  referenceCount : Option Position → Option Nat
  fdCounter : Nat

namespace FDManager

/-- The constructor. -/
def new : FDManager := ⟨fun _ => none, fun _ => none, 10⟩

def deltaRefCnt (m : FDManager) (inode : Option Position) (delta : Int) : FDManager :=
  match m.referenceCount inode with
  | none => { m with referenceCount := Function.update m.referenceCount inode (some (uint64 delta)) }
  | some count =>
    { m with referenceCount := Function.update m.referenceCount inode (some (uint64 (count + delta))) }

/-- `open`; `insert` leaves an entry alone that is there already. -/
def open' (m : FDManager) (inode : Option Position) : Nat × FDManager :=
  let fd := m.fdCounter
  let fdManager := match m.fdManager fd with
    | none => Function.update m.fdManager fd (some inode)
    | some _ => m.fdManager
  (fd, { m with fdManager, fdCounter := (fd + 1) % 18446744073709551616 }.deltaRefCnt inode 1)

def get (m : FDManager) (fd : Nat) : Option (Option Position) :=
  if fd = 0 then none else m.fdManager fd

def close (m : FDManager) (fd : Nat) : FDManager :=
  if fd = 0 then m
  else
    match m.fdManager fd with
    | none => m
    | some inode =>
      { m.deltaRefCnt inode (-1) with fdManager := Function.update m.fdManager fd none }

def isOpen (m : FDManager) (inode : Option Position) : Bool :=
  match m.referenceCount inode with
  | none => false
  | some count => decide (0 < count)

end FDManager

/-- The globals of `vfs.cpp`; of the file system only its root is looked at. -/
structure Vfs where
  root : Position
  pathResolver : PathResolver
  fdManager : FDManager

/-- `splitFromLastSlash`: the path up to its last slash, and the rest. -/
def splitFromLastSlash (path : Name) : Name × Name :=
  let child := (path.reverse.takeWhile (· ≠ slash)).reverse
  (path.take (path.length - child.length), child)

namespace Vfs

variable (v : Vfs)

/-! ## Names -/

def resolve (path : Name) : VfsProg (Position × Vfs) := do
  let (inode, r) ← v.pathResolver.resolve v.root path
  return (inode, { v with pathResolver := r })

def removePrefix (pre : Name) : VfsProg Vfs :=
  match v.pathResolver.removePrefix pre with
  | none => undefined
  | some r => return { v with pathResolver := r }

def sbMkdir (path : Name) (mode : UInt16) : VfsProg (Int × Vfs) := do
  let (parent, child) := splitFromLastSlash path
  let (parentInode, v) ← v.resolve parent
  if !parentInode.isValid then return (-2, v)
  else
    let _ ← VfsProg.create parentInode child kDirectory mode
    return (0, v)

/-- `sb_create`, with the descriptor that `fi->fh` gets. -/
def sbCreate (path : Name) (mode : UInt16) : VfsProg (Int × Option Nat × Vfs) := do
  let (parent, child) := splitFromLastSlash path
  let (parentInode, v) ← v.resolve parent
  if !parentInode.isValid then return (-2, none, v)
  else
    let (_, childInode) ← VfsProg.create parentInode child kFile mode
    let (fh, fdManager) := v.fdManager.open' childInode
    return (0, some fh, { v with fdManager })

def sbRmdir (path : Name) : VfsProg (Int × Vfs) := do
  let (parent, child) := splitFromLastSlash path
  let (parentInode, v) ← v.resolve parent
  if !parentInode.isValid then return (-2, v)
  else
    match ← VfsProg.find parentInode child with
    | none => return (-2, v)
    | some childInode =>
      let ret ← VfsProg.checkEmpty childInode
      if ret ≠ 0 then return (ret, v)
      else
        let _ ← VfsProg.remove parentInode child
        return (0, ← v.removePrefix path)

def sbUnlink (path : Name) : VfsProg (Int × Vfs) := do
  let (parent, child) := splitFromLastSlash path
  let (parentInode, v) ← v.resolve parent
  if !parentInode.isValid then return (-2, v)
  else
    match ← VfsProg.find parentInode child with
    | none => return (-2, v)
    | some _ =>
      let _ ← VfsProg.remove parentInode child
      return (0, ← v.removePrefix path)

/-- `link`, with an inode that may not have been set, in a directory that may be invalid. -/
def linkIn (dir : Position) (name : Name) (inode : Option Position) (replace : Bool) :
    VfsProg Unit :=
  match inode with
  | none => undefined
  | some inode =>
    if !dir.isValid then undefined
    else do
      let _ ← VfsProg.link dir name inode replace
      return ()

/-- The exchange step of `sb_rename`. -/
def exchange (oldParent : Position) (oldChild : Name) (newParent : Position) (newChild : Name) :
    VfsProg Unit :=
  if !newParent.isValid then undefined
  else do
    let (_, newChildInode) ← VfsProg.unlink newParent newChild
    linkIn oldParent oldChild newChildInode false

/-- `sb_rename`; bit 0 of the flags is `RENAME_NOREPLACE`, bit 1 `RENAME_EXCHANGE`. -/
def sbRename (oldPath newPath : Name) (flags : Nat) : VfsProg (Int × Vfs) := do
  let (oldParent, oldChild) := splitFromLastSlash oldPath
  let (oldParentInode, v) ← v.resolve oldParent
  if !oldParentInode.isValid then return (-2, v)
  else
    let (newParent, newChild) := splitFromLastSlash newPath
    let (newParentInode, v) ← v.resolve newParent
    match ← VfsProg.unlink oldParentInode oldChild with
    | (.kFail, _) => return (-2, v)
    | (.kSuccess, oldChildInode) =>
      if flags.testBit 1 then exchange oldParentInode oldChild newParentInode newChild
      linkIn newParentInode newChild oldChildInode (!flags.testBit 0)
      let v ← v.removePrefix oldPath
      let v ← v.removePrefix newPath
      return (0, v)

/-! ## Data -/

/-- `sb_open`, with the descriptor that `fi->fh` gets. -/
def sbOpen (path : Name) : VfsProg (Int × Option Nat × Vfs) := do
  let (inode, v) ← v.resolve path
  if !inode.isValid then return (-2, none, v)
  else
    let (fh, fdManager) := v.fdManager.open' (some inode)
    return (0, some fh, { v with fdManager })

def sbRelease (fh : Nat) : Vfs := { v with fdManager := v.fdManager.close fh }

/-- Use the inode of a descriptor, which the caller has found. -/
def useInode {α : Type} (inode : Option Position) (f : Position → VfsProg α) : VfsProg α :=
  match inode with
  | none => undefined
  | some inode => f inode

/-- `sb_read`; an `off_t` becomes a `uint32_t`. -/
def sbRead (fh : Nat) (buf : Mem) (size : Nat) (offset : Int) : VfsProg (Int × Mem) :=
  if 4294967295 < size then return (-22, buf)
  else
    match v.fdManager.get fh with
    | none => return (-9, buf)
    | some inode => useInode inode fun inode => do
      let (ret, buf) ← VfsProg.readData inode (uint32 offset) buf size
      if ret = -1 then return (-5, buf) else return (ret, buf)

def sbWrite (fh : Nat) (buf : Mem) (size : Nat) (offset : Int) : VfsProg Int :=
  if 4294967295 < size then return -22
  else
    match v.fdManager.get fh with
    | none => return -9
    | some inode => useInode inode fun inode => do
      let ret ← VfsProg.writeData inode (uint32 offset) buf size
      if ret = -1 then return -5 else return ret

/-- The last step of `sb_truncate`. -/
def truncateInode (inode : Position) (off : Int) : VfsProg Int := do
  match ← VfsProg.resize inode (uint32 off) with
  | .kFail => return -5
  | .kSuccess => return 0

def sbTruncate (path : Name) (off : Int) (fh : Nat) : VfsProg (Int × Vfs) :=
  if 4294967295 < off then return (-22, v)
  else
    match v.fdManager.get fh with
    | some inode => useInode inode fun inode => do return (← truncateInode inode off, v)
    | none => do
      let (inode, v) ← v.resolve path
      if !inode.isValid then return (-2, v) else return (← truncateInode inode off, v)

def sbFsync (datasync : Int) (fh : Nat) : VfsProg Int :=
  match v.fdManager.get fh with
  | none => return -9
  | some inode => useInode inode fun inode => do
    match ← VfsProg.sync inode (datasync = 0) with
    | .kFail => return -5
    | .kSuccess => return 0

end Vfs

end Sbfs
