import Sbfs.Resize

/-! # `inode.cpp`

An `Inode` of the code is a position together with a pointer to the file system; here
the position is the value and the file system an argument.  Directories are files of
256-byte entries, which `scan` searches block by block. -/

namespace Sbfs

/-- `Inode::read_inode`. -/
def readInode (pos : Position) : Prog (Option DiskInode) := do
  match ← DevProg.readBlk pos.blockId with
  | none => return none
  | some blk => return some (inodeIn blk pos.blockOffset)

/-- The first entry of a directory block with the given name. -/
def findEntry (dirBlk : Mem) (name : Name) : Option Nat :=
  (List.range 16).find? fun j => strEq (fun p => dirBlk (256 * j + p)) name

/-- How the search of a directory ends: at entry `j` of block `i`, which names an inode. -/
inductive Scan where
  | failed
  | absent
  | found (i j inode : Nat)
deriving Repr, DecidableEq

/-- The loop over the blocks of a directory; `dirBlk` is the buffer that every round
reuses. -/
def scanFrom (name : Name) : Nat → Nat → Mem → DiskInode → Prog (Scan × DiskInode)
  | 0, _, _, d => return (.absent, d)
  | n + 1, i, dirBlk, d => do
    let (len, dirBlk, d) ← d.readData (i * 4096 % 4294967296) 4096 dirBlk
    if len = -1 then return (.failed, d)
    else
      match findEntry dirBlk name with
      | some j => return (.found i j (le (fun p => dirBlk (256 * j + 252 + p)) 4), d)
      | none => scanFrom name n (i + 1) dirBlk d

/-- The search that `find`, `remove`, `link` and `unlink` start with.  The entries of a new
buffer have empty names and inode 0. -/
def scan (d : DiskInode) (name : Name) : Prog (Scan × DiskInode) :=
  scanFrom name (DiskInode.totalBlocks d.size.toNat) 0 (fun _ => 0) d

/-- `update_link_cnt` and its counterpart in `unlink`: read, change and write an inode. -/
def modifyInode (pos : Position) (f : DiskInode → DiskInode) : Prog Ret := do
  match ← readInode pos with
  | none => return .kFail
  | some d => writeInode pos (f d)

/-- `i * sizeof(DirBlock) + j * sizeof(DirEntry)`. -/
def entryOffset (i j : Nat) : Nat := (i * 4096 + j * 256) % 4294967296

/-- Unless it is the last one of a full last block, overwrite entry `j` of block `i` with the
last entry. -/
def moveLast (d : DiskInode) (i j : Nat) : Prog (Ret × DiskInode) := do
  if (i : Int) ≠ (DiskInode.totalBlocks d.size.toNat : Int) - 1 ∨ j ≠ 15 then do
    let (len, last, d) ← d.readData (uint32 (d.size.toNat - 256)) 256 (fun _ => 0)
    if len = -1 then return (.kFail, d)
    else
      let (len, d) ← d.writeData (entryOffset i j) last 256
      if len = -1 then return (.kFail, d) else return (.kSuccess, d)
  else return (.kSuccess, d)

namespace Inode

variable (fs : SBFileSystem)

def readData (pos : Position) (offset : Nat) (buf : Mem) (size : Nat) : Prog (Int × Mem) := do
  match ← readInode pos with
  | none => return (-1, buf)
  | some d =>
    let (len, buf, d) ← d.readData offset size buf
    if len = -1 then return (-1, buf)
    else
      match ← writeInode pos d with
      | .kFail => return (-1, buf)
      | .kSuccess => return (len, buf)

/-- `Inode::write_data`; the result of `resize` is dropped. -/
def writeData (pos : Position) (offset : Nat) (buf : Mem) (size : Nat) : Prog Int := do
  match ← readInode pos with
  | none => return -1
  | some d =>
    let (_, d) ← if d.size.toNat < (offset + size) % 4294967296 then
        d.resize ((offset + size) % 4294967296) fs.dataBitmap none
      else pure (.kSuccess, d)
    let (len, d) ← d.writeData offset buf size
    if len = -1 then return -1
    else
      match ← writeInode pos d with
      | .kFail => return -1
      | .kSuccess => return len

/-- The two entries of a new directory. -/
def dotEntries (self parent : Nat) : Mem := fun p =>
  if p < 256 then dirEntry [46] self p else dirEntry [46, 46] parent (p - 256)

/-- The part of `create` for a directory: write `.` and `..`. -/
def createDots (diskInode : DiskInode) (self parent : Nat) : Prog (Ret × DiskInode) := do
  match ← diskInode.resize ((diskInode.size.toNat + 512) % 4294967296) fs.dataBitmap none with
  | (.kFail, diskInode) => return (.kFail, diskInode)
  | (.kSuccess, diskInode) =>
    let (len, diskInode) ← diskInode.writeData (uint32 (diskInode.size.toNat - 512))
      (dotEntries self parent) 512
    if len = -1 then return (.kFail, diskInode) else return (.kSuccess, diskInode)

/-- Grow a directory by one entry and write the entry. -/
def appendEntry (d : DiskInode) (name : Name) (inode : Nat) : Prog (Ret × DiskInode) := do
  match ← d.resize ((d.size.toNat + 256) % 4294967296) fs.dataBitmap none with
  | (.kFail, d) => return (.kFail, d)
  | (.kSuccess, d) =>
    let (len, d) ← d.writeData (uint32 (d.size.toNat - 256)) (dirEntry name inode) 256
    if len = -1 then return (.kFail, d) else return (.kSuccess, d)

/-- `Inode::create`; the second component is `*inode`, `none` while it is not set. -/
def create (pos : Position) (name : Name) (diskInode : DiskInode) :
    Prog (Ret × Option Position) := do
  match ← readInode pos with
  | none => return (.kFail, none)
  | some cur =>
    if cur.type ≠ kDirectory then return (.kFail, none)
    else
      let newInodeId ← fs.allocInode
      let inode := fs.getDiskInodePos newInodeId
      match ← appendEntry fs cur name newInodeId with
      | (.kFail, _) => return (.kFail, some inode)
      | (.kSuccess, cur) =>
        match ← (if diskInode.type = kDirectory then
            createDots fs diskInode newInodeId (fs.getDiskInodeId pos)
          else pure (.kSuccess, diskInode)) with
        | (.kFail, _) => return (.kFail, some inode)
        | (.kSuccess, diskInode) =>
          match ← writeInode inode diskInode with
          | .kFail => return (.kFail, some inode)
          | .kSuccess => return (← writeInode pos cur, some inode)

/-- `Inode::find`. -/
def find (pos : Position) (name : Name) : Prog (Option Position) := do
  match ← readInode pos with
  | none => return none
  | some d =>
    if d.type ≠ kDirectory then return none
    else
      match ← scan d name with
      | (.found _ _ inode, _) => return some (fs.getDiskInodePos inode)
      | (.absent, _) => return none
      | (.failed, _) => return none

def resize (pos : Position) (newSize : Nat) : Prog Ret := do
  match ← readInode pos with
  | none => return .kFail
  | some d =>
    if d.type ≠ kFile then return .kFail
    else if d.size.toNat < newSize then
      match ← d.resize newSize fs.dataBitmap none with
      | (.kFail, _) => return .kFail
      | (.kSuccess, d) => writeInode pos d
    else do
      let (ret, _) ← d.resize newSize fs.dataBitmap (some pos)
      return ret

/-- `Inode::remove`. -/
def remove (pos : Position) (name : Name) : Prog Ret := do
  match ← readInode pos with
  | none => return .kFail
  | some d =>
    if d.type ≠ kDirectory then return .kFail
    else
      match ← scan d name with
      | (.failed, _) => return .kFail
      | (.absent, _) => return .kFail
      | (.found i j inode, d) =>
        match ← readInode (fs.getDiskInodePos inode) with
        | none => return .kFail
        | some del =>
          let del := { del with linkCnt := del.linkCnt - 1 }
          if del.linkCnt = 0 then
            match ← moveLast d i j with
            | (.kFail, _) => return .kFail
            | (.kSuccess, d) =>
              match ← d.resize (uint32 (d.size.toNat - 256)) fs.dataBitmap (some pos) with
              | (.kFail, _) => return .kFail
              | (.kSuccess, _) =>
                match ← fs.freeInode inode with
                | .kFail => return .kFail
                | .kSuccess => do
                  let (ret, _) ← del.resize 0 fs.dataBitmap none
                  return ret
          else writeInode pos d

/-- `Inode::link`. -/
def link (pos : Position) (name : Name) (inode : Position) (replace : Bool) : Prog Ret := do
  match ← readInode pos with
  | none => return .kFail
  | some d =>
    if d.type ≠ kDirectory then return .kFail
    else
      match ← scan d name with
      | (.failed, _) => return .kFail
      | (.found i j _, d) =>
        if replace then
          match ← modifyInode inode fun raw => { raw with linkCnt := raw.linkCnt + 1 } with
          | .kFail => return .kFail
          | .kSuccess => do
            let (len, d) ← d.writeData (entryOffset i j) (dirEntry name (fs.getDiskInodeId inode)) 256
            if len = -1 then return .kFail else writeInode pos d
        else return .kFail
      | (.absent, d) =>
        match ← modifyInode inode fun raw => { raw with linkCnt := raw.linkCnt + 1 } with
        | .kFail => return .kFail
        | .kSuccess =>
          match ← appendEntry fs d name (fs.getDiskInodeId inode) with
          | (.kFail, _) => return .kFail
          | (.kSuccess, d) => writeInode pos d

/-- The lambda of `Inode::unlink`: find the entry and remove it without releasing the inode. -/
def detach (pos : Position) (name : Name) : Prog (Ret × Option Position) := do
  match ← readInode pos with
  | none => return (.kFail, none)
  | some d =>
    if d.type ≠ kDirectory then return (.kFail, none)
    else
      match ← scan d name with
      | (.failed, _) => return (.kFail, none)
      | (.absent, _) => return (.kFail, none)
      | (.found i j inode, d) =>
        match ← moveLast d i j with
        | (.kFail, _) => return (.kFail, some (fs.getDiskInodePos inode))
        | (.kSuccess, d) => do
          let (ret, _) ← d.resize (uint32 (d.size.toNat - 256)) fs.dataBitmap (some pos)
          return (ret, some (fs.getDiskInodePos inode))

/-- `Inode::unlink`; the second component is `*inode`, `none` while it is not set. -/
def unlink (pos : Position) (name : Name) : Prog (Ret × Option Position) := do
  match ← detach fs pos name with
  | (.kSuccess, some inode) =>
    let ret ← modifyInode inode fun raw => { raw with linkCnt := raw.linkCnt - 1 }
    return (ret, some inode)
  | (ret, inode) => return (ret, inode)

def sync (pos : Position) (metadata : Bool) : Prog Ret := do
  match ← readInode pos with
  | none => return .kFail
  | some d =>
    match ← d.syncData false with
    | .kFail => return .kFail
    | .kSuccess =>
      if metadata then
        if ← DevProg.syncBlk pos.blockId then return .kSuccess else return .kFail
      else return .kSuccess

end Inode

end Sbfs
