import Sbfs.Inode
import Sbfs.Lib.ReqProg

/-! # What the upper layers ask of an inode

`PathResolver` and the callbacks of `vfs.cpp` reach the disk through the methods of
`Inode` only.  They are written as programs over these methods (`VfsProg`), so that one
text can be run on a block device (`InodeReq.on`) and on an abstract directory tree. -/

namespace Sbfs

/-- The calls of inode methods.  `create` carries what its caller puts into the new
`DiskInode`; `checkEmpty` is the part of `sb_rmdir` that looks into the directory;
`undefined` is a step for which the language promises nothing. -/
inductive InodeReq where
  | find (dir : Position) (name : Name)
  | create (dir : Position) (name : Name) (type : DiskInodeType) (mode : UInt16)
  | remove (dir : Position) (name : Name)
  | link (dir : Position) (name : Name) (inode : Position) (replace : Bool)
  | unlink (dir : Position) (name : Name)
  | checkEmpty (dir : Position)
  | readData (inode : Position) (offset : Nat) (buf : Mem) (size : Nat)
  | writeData (inode : Position) (offset : Nat) (buf : Mem) (size : Nat)
  | resize (inode : Position) (newSize : Nat)
  | sync (inode : Position) (metadata : Bool)
  | undefined

namespace InodeReq

/-- The answers; in a pair the second component is the output parameter `*inode`, `none`
while it is not set. -/
@[reducible] def Ans : InodeReq → Type
  | find _ _ => Option Position
  | create _ _ _ _ => Ret × Option Position
  | remove _ _ => Ret
  | link _ _ _ _ => Ret
  | unlink _ _ => Ret × Option Position
  | checkEmpty _ => Int
  | readData _ _ _ _ => Int × Mem
  | writeData _ _ _ _ => Int
  | resize _ _ => Ret
  | sync _ _ => Ret
  | undefined => Empty

end InodeReq

abbrev VfsProg := ReqProg InodeReq InodeReq.Ans

/-- A step for which the language promises nothing: no run gets past it. -/
def undefined {α : Type} : VfsProg α := .ask .undefined Empty.elim

@[simp] theorem ensures_undefined {α τ : Type} (S : Service InodeReq InodeReq.Ans τ)
    (post : α → τ → Prop) (t : τ) : (undefined : VfsProg α).Ensures S post t :=
  fun answer _ _ => Empty.elim answer

namespace VfsProg

/-! The calls as programs, with their types of answers. -/

def find (dir : Position) (name : Name) : VfsProg (Option Position) :=
  ReqProg.call (InodeReq.find dir name)

def create (dir : Position) (name : Name) (type : DiskInodeType) (mode : UInt16) :
    VfsProg (Ret × Option Position) := ReqProg.call (InodeReq.create dir name type mode)

def remove (dir : Position) (name : Name) : VfsProg Ret := ReqProg.call (InodeReq.remove dir name)

def link (dir : Position) (name : Name) (inode : Position) (replace : Bool) : VfsProg Ret :=
  ReqProg.call (InodeReq.link dir name inode replace)

def unlink (dir : Position) (name : Name) : VfsProg (Ret × Option Position) :=
  ReqProg.call (InodeReq.unlink dir name)

def checkEmpty (dir : Position) : VfsProg Int := ReqProg.call (InodeReq.checkEmpty dir)

def readData (inode : Position) (offset : Nat) (buf : Mem) (size : Nat) : VfsProg (Int × Mem) :=
  ReqProg.call (InodeReq.readData inode offset buf size)

def writeData (inode : Position) (offset : Nat) (buf : Mem) (size : Nat) : VfsProg Int :=
  ReqProg.call (InodeReq.writeData inode offset buf size)

def resize (inode : Position) (newSize : Nat) : VfsProg Ret :=
  ReqProg.call (InodeReq.resize inode newSize)

def sync (inode : Position) (metadata : Bool) : VfsProg Ret :=
  ReqProg.call (InodeReq.sync inode metadata)

end VfsProg

/-! ## On the disk -/

/-- An entry that is in use and is neither `.` nor `..`. -/
def realEntry (dirBlk : Mem) (j : Nat) : Bool :=
  dirBlk (256 * j) != 0 && !strEq (fun p => dirBlk (256 * j + p)) [46] &&
    !strEq (fun p => dirBlk (256 * j + p)) [46, 46]

section

variable (fs : SBFileSystem) (uid gid : UInt16)

/-- The part of `sb_rmdir` from `read_inode` on; 0 stands for an empty directory.  A failed
read leaves the `DiskInode` and the `DirBlock` as their constructors made them. -/
def checkEmpty (child : Position) : Prog Int := do
  let new ← DiskInode.new kDirectory uid gid
  let d := (← readInode child).getD new
  if d.type ≠ kDirectory then return -20
  else if 1 < DiskInode.totalBlocks d.size.toNat then return -39
  else do
    let (_, dirBlk) ← Inode.readData child 0 (fun _ => 0) 4096
    if (List.range 16).any (realEntry dirBlk) then return -39 else return 0

/-- `DiskInode disk_inode(type); disk_inode.mode |= mode & 0777;` and `create`. -/
def createInode (dir : Position) (name : Name) (type : DiskInodeType) (mode : UInt16) :
    Prog (Ret × Option Position) := do
  let d ← DiskInode.new type uid gid
  Inode.create fs dir name { d with mode := d.mode ||| (mode &&& 511) }

/-- The method that each call runs. -/
def InodeReq.body : (q : InodeReq) → q ≠ undefined → Prog (Ans q)
  | find dir name, _ => Inode.find fs dir name
  | create dir name type mode, _ => createInode fs uid gid dir name type mode
  | remove dir name, _ => Inode.remove fs dir name
  | link dir name inode replace, _ => Inode.link fs dir name inode replace
  | unlink dir name, _ => Inode.unlink fs dir name
  | checkEmpty dir, _ => Sbfs.checkEmpty uid gid dir
  | readData inode offset buf size, _ => Inode.readData inode offset buf size
  | writeData inode offset buf size, _ => Inode.writeData fs inode offset buf size
  | resize inode newSize, _ => Inode.resize fs inode newSize
  | sync inode metadata, _ => Inode.sync inode metadata
  | undefined, defined => absurd rfl defined

/-- The calls on a device. -/
def InodeReq.on {σ : Type} (device : Handler Block σ) : Service InodeReq InodeReq.Ans σ :=
  fun q s r s' => ∃ defined, (q.body fs uid gid defined).interp device s = (r, s')

end

end Sbfs
