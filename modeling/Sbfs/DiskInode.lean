import Sbfs.Layout

/-! # `disk_inode.cpp`

The operations of an inode on its block map and on its bytes.  The record is a value
that the operations return changed, also when they fail; the device is reached
through `Prog`.  Sizes and block counts are naturals below `2 ^ 32`; where the code
computes in `int` or wraps, the definitions do so too. -/

namespace Sbfs

/-- `data_blocks`: the sum is computed in 64 bits. -/
def dataBlocks (size : Nat) : Nat := (size + 4095) / 4096

/-- `Inode::write_inode`. -/
def writeInode (pos : Position) (d : DiskInode) : Prog Ret := do
  match ← DevProg.readBlk pos.blockId with
  | none => return .kFail
  | some blk =>
    if ← DevProg.writeBlk pos.blockId (putInode blk pos.blockOffset d) then return .kSuccess
    else return .kFail

theorem run_writeInode {pos : Position} {s : Disk} (d : DiskInode) (onDevice : pos.blockId < s.count) :
    (writeInode pos d).run s = (.kSuccess,
      s.put pos.blockId (putInode (s.blocks pos.blockId) pos.blockOffset d)) := by
  simp only [writeInode, DevProg.run_bind, DevProg.run_readBlk_of_lt onDevice,
    DevProg.run_writeBlk_of_lt _ onDevice, if_true, DevProg.run_pure]

namespace DiskInode

/-! ## Metadata -/

/-- One line of `update_meta`. -/
def stamp (wanted : Bool) (set : UInt32 → DiskInode) (d : DiskInode) : Prog DiskInode :=
  if wanted then do
    let t ← DevProg.now
    return set (UInt32.ofNat t)
  else return d

/-- `update_meta`. -/
def updateMeta (d : DiskInode) (flag : Nat) : Prog DiskInode := do
  let d ← stamp (flag.testBit 0) (fun t => { d with accessTime := t }) d
  let d ← stamp (flag.testBit 1) (fun t => { d with modifyTime := t }) d
  stamp (flag.testBit 2) (fun t => { d with changeTime := t }) d

/-- The constructor; `uid` and `gid` are what `getuid` and `getgid` return. -/
def new (type : DiskInodeType) (uid gid : UInt16) : Prog DiskInode := do
  let access ← DevProg.now
  let modify ← DevProg.now
  let change ← DevProg.now
  return {
    size := 0
    accessTime := UInt32.ofNat access
    changeTime := UInt32.ofNat change
    modifyTime := UInt32.ofNat modify
    uid
    gid
    linkCnt := 1
    mode := if type = kDirectory then 16384 else 32768
    direct := fun _ => 0
    indirect1 := 0
    indirect2 := 0
    type }

def totalBlocks (size : Nat) : Nat :=
  let data := dataBlocks size
  if data < 23 then data
  else if data - 23 < 1024 then data + 1
  else data + 2 + (data - 23 - 1024 + 1024 - 1) / 1024

/-! ## The block map -/

def blockId (d : DiskInode) (innerId : Nat) : Prog Nat := do
  if 1049623 ≤ innerId then return kFailId
  else if innerId < 23 then return d.directAt innerId
  else if innerId < 23 + 1024 then do
    match ← DevProg.readBlk d.indirect1.toNat with
    | none => return kFailId
    | some buf => return entry buf (innerId - 23)
  else do
    match ← DevProg.readBlk d.indirect2.toNat with
    | none => return kFailId
    | some buf =>
      match ← DevProg.readBlk (entry buf ((innerId - 1047) / 1024)) with
      | none => return kFailId
      | some buf2 => return entry buf2 ((innerId - 1047) % 1024)

/-! ### Growing -/

/-- The loops over `i` that allocate a block and store its id: in `direct`, and in the
entries of the block at `indirect1`. -/
def allocEach {α : Type} (bm : Bitmap) (store : α → Nat → Nat → α) :
    Nat → Nat → α → Prog (Ret × α)
  | 0, _, a => return (.kSuccess, a)
  | n + 1, i, a => do
    let newBlk ← bm.alloc
    if newBlk = kFailId then return (.kFail, a)
    else allocEach bm store n (i + 1) (store a i newBlk)

/-- Step two of `increase`, with `indirect1` in place. -/
def fillIndirect1 (d : DiskInode) (oldData newData : Nat) (bm : Bitmap) :
    Prog (Ret × DiskInode) := do
  match ← DevProg.readBlk d.indirect1.toNat with
  | none => return (.kFail, d)
  | some ind1 =>
    match ← allocEach bm (fun p i newBlk => setEntry p (i - 23) newBlk)
        (min newData 1047 - max oldData 23) (max oldData 23) ind1 with
    | (.kFail, _) => return (.kFail, d)
    | (.kSuccess, ind1) =>
      if ← DevProg.writeBlk d.indirect1.toNat ind1 then return (.kSuccess, d)
      else return (.kFail, d)

/-- Step two of `increase`. -/
def increaseIndirect1 (d : DiskInode) (oldData newData : Nat) (bm : Bitmap) :
    Prog (Ret × DiskInode) := do
  if d.indirect1 = 0 then do
    let id ← bm.alloc
    if id = kFailId then return (.kFail, { d with indirect1 := UInt32.ofNat id })
    else fillIndirect1 { d with indirect1 := UInt32.ofNat id } oldData newData bm
  else fillIndirect1 d oldData newData bm

/-- The second-level index block for group `blk`, allocated when the groups below it are
the only ones that exist. -/
def secondLevel (bm : Bitmap) (indirect2 blk : Nat) (blkLimit : Int) (ind2 : Block) :
    Prog (Option (Int × Block)) := do
  if blkLimit < blk then do
    let newInd1 ← bm.alloc
    if newInd1 = kFailId then return none
    else if ← DevProg.writeBlk indirect2 (setEntry ind2 blk newInd1) then
      return some (blkLimit + 1, setEntry ind2 blk newInd1)
    else return none
  else return some (blkLimit, ind2)

/-- Allocate a data block and store its id in entry `k` of the index block `target`. -/
def appendEntry (bm : Bitmap) (target k : Nat) : Prog Ret := do
  match ← DevProg.readBlk target with
  | none => return .kFail
  | some ind21 =>
    let newBlk ← bm.alloc
    if newBlk = kFailId then return .kFail
    else if ← DevProg.writeBlk target (setEntry ind21 k newBlk) then return .kSuccess
    else return .kFail

/-- The loop of step three of `increase`. -/
def growIndirect2 (bm : Bitmap) (indirect2 : Nat) : Nat → Nat → Int → Block → Prog Ret
  | 0, _, _, _ => return .kSuccess
  | n + 1, i, blkLimit, ind2 => do
    match ← secondLevel bm indirect2 ((i - 1047) / 1024) blkLimit ind2 with
    | none => return .kFail
    | some (blkLimit, ind2) =>
      match ← appendEntry bm (entry ind2 ((i - 1047) / 1024)) ((i - 1047) % 1024) with
      | .kFail => return .kFail
      | .kSuccess => growIndirect2 bm indirect2 n (i + 1) blkLimit ind2

/-- Step three of `increase`, with `indirect2` in place. -/
def fillIndirect2 (d : DiskInode) (oldData newData : Nat) (bm : Bitmap) :
    Prog (Ret × DiskInode) := do
  match ← DevProg.readBlk d.indirect2.toNat with
  | none => return (.kFail, d)
  | some ind2 =>
    let oldIdxLimit : Int := (oldData : Int) - 23 - 1024 - 1
    let blkLimit : Int := if oldIdxLimit < 0 then -1 else oldIdxLimit.tdiv 1024
    let ret ← growIndirect2 bm d.indirect2.toNat (newData - max oldData 1047) (max oldData 1047)
      blkLimit ind2
    return (ret, d)

/-- Step three of `increase`. -/
def increaseIndirect2 (d : DiskInode) (oldData newData : Nat) (bm : Bitmap) :
    Prog (Ret × DiskInode) := do
  if d.indirect2 = 0 then do
    let id ← bm.alloc
    if id = kFailId then return (.kFail, { d with indirect2 := UInt32.ofNat id })
    else fillIndirect2 { d with indirect2 := UInt32.ofNat id } oldData newData bm
  else fillIndirect2 d oldData newData bm

/-- `increase`; the block totals that the code also passes serve an assertion only. -/
def increase (d : DiskInode) (oldData newData : Nat) (bm : Bitmap) : Prog (Ret × DiskInode) := do
  match ← allocEach bm setDirect (min newData 23 - oldData) oldData d with
  | (.kFail, d) => return (.kFail, d)
  | (.kSuccess, d) =>
    match ← (if 23 < newData then increaseIndirect1 d oldData newData bm
        else pure (.kSuccess, d)) with
    | (.kFail, d) => return (.kFail, d)
    | (.kSuccess, d) =>
      if 1047 < newData then increaseIndirect2 d oldData newData bm else return (.kSuccess, d)

/-! ### Shrinking -/

/-- The loops of `decrease` over `n` entries from `j` on: push the id of the entry on
`bitmap_to_free`, a vector of `int`, and overwrite the entry with `-1`. -/
def dropEach {α : Type} (get : α → Nat → Nat) (set : α → Nat → Nat → α) :
    Nat → Nat → α → List Int × α
  | 0, _, a => ([], a)
  | n + 1, j, a =>
    let (ids, b) := dropEach get set n (j + 1) (set a j kFailId)
    (int32 (get a j) :: ids, b)

/-- Step two of `decrease`. -/
def decreaseIndirect1 (d : DiskInode) (oldData newData : Nat) :
    Prog (Ret × DiskInode × List Int) := do
  if d.indirect1 = 0 then return (.kSuccess, d, [])
  else
    match ← DevProg.readBlk d.indirect1.toNat with
    | none => return (.kFail, d, [])
    | some ind1 =>
      let (ids, ind1) := dropEach entry setEntry (min oldData 1047 - max newData 23)
        (max newData 23 - 23) ind1
      if newData ≤ 23 then
        return (.kSuccess, { d with indirect1 := 0 }, ids ++ [int32 d.indirect1.toNat])
      else if ← DevProg.writeBlk d.indirect1.toNat ind1 then return (.kSuccess, d, ids)
      else return (.kFail, d, ids)

/-- The loop of step three of `decrease` that gives up every group: `posj` is the group
and the entry of the old end. -/
def freeGroups (ind2 : Block) (posj : Nat × Nat) : Nat → Nat → Prog (Ret × List Int)
  | 0, _ => return (.kSuccess, [])
  | n + 1, i => do
    match ← DevProg.readBlk (entry ind2 i) with
    | none => return (.kFail, [])
    | some ind1 =>
      let ids := if i ≠ posj.1 then (dropEach entry setEntry 1024 0 ind1).1
        else (dropEach entry setEntry (posj.2 + 1) 0 ind1).1
      let (ret, rest) ← freeGroups ind2 posj n (i + 1)
      return (ret, ids ++ [int32 (entry ind2 i)] ++ rest)

/-- One round of the loop of step three of `decrease` that keeps group `posi.1`.  The
index block of that group is written to block `i`, the number of the group. -/
def trimGroup (ind2 : Block) (posi posj : Nat × Nat) (i : Nat) (ind1 : Block) :
    Prog (Ret × List Int) := do
  if i ≠ posi.1 ∧ i ≠ posj.1 then
    return (.kSuccess, (dropEach entry setEntry 1024 0 ind1).1 ++ [int32 (entry ind2 i)])
  else if i = posi.1 ∧ i ≠ posj.1 then do
    let (ids, ind1) := dropEach entry setEntry (1024 - (posi.2 + 1)) (posi.2 + 1) ind1
    if ← DevProg.writeBlk i ind1 then return (.kSuccess, ids) else return (.kFail, ids)
  else if i = posj.1 ∧ i ≠ posi.1 then
    return (.kSuccess, (dropEach entry setEntry (posj.2 + 1) 0 ind1).1 ++ [int32 (entry ind2 i)])
  else do
    let (ids, ind1) := dropEach entry setEntry (posj.2 - posi.2) (posi.2 + 1) ind1
    if ← DevProg.writeBlk i ind1 then return (.kSuccess, ids) else return (.kFail, ids)

/-- The loop of step three of `decrease` that keeps group `posi.1`. -/
def trimGroups (ind2 : Block) (posi posj : Nat × Nat) : Nat → Nat → Prog (Ret × List Int)
  | 0, _ => return (.kSuccess, [])
  | n + 1, i => do
    match ← DevProg.readBlk (entry ind2 i) with
    | none => return (.kFail, [])
    | some ind1 =>
      match ← trimGroup ind2 posi posj i ind1 with
      | (.kFail, ids) => return (.kFail, ids)
      | (.kSuccess, ids) =>
        let (ret, rest) ← trimGroups ind2 posi posj n (i + 1)
        return (ret, ids ++ rest)

/-- Step three of `decrease`; when neither case applies only an assertion is logged. -/
def decreaseIndirect2 (d : DiskInode) (oldData newData : Nat) :
    Prog (Ret × DiskInode × List Int) := do
  if d.indirect2 = 0 then return (.kSuccess, d, [])
  else
    let ri : Int := (newData : Int) - 23 - 1024 - 1
    let rj : Int := (oldData : Int) - 23 - 1024 - 1
    let posi := (ri.toNat / 1024, ri.toNat % 1024)
    let posj := (rj.toNat / 1024, rj.toNat % 1024)
    if ri < 0 ∧ 0 ≤ rj then do
      match ← DevProg.readBlk d.indirect2.toNat with
      | none => return (.kFail, d, [])
      | some ind2 =>
        match ← freeGroups ind2 posj (posj.1 + 1) 0 with
        | (.kFail, ids) => return (.kFail, d, ids)
        | (.kSuccess, ids) =>
          return (.kSuccess, { d with indirect2 := 0 }, ids ++ [int32 d.indirect2.toNat])
    else if 0 ≤ ri ∧ 0 ≤ rj then do
      match ← DevProg.readBlk d.indirect2.toNat with
      | none => return (.kFail, d, [])
      | some ind2 =>
        match ← trimGroups ind2 posi posj (posj.1 + 1 - posi.1) posi.1 with
        | (.kFail, ids) => return (.kFail, d, ids)
        | (.kSuccess, ids) =>
          if ← DevProg.writeBlk d.indirect2.toNat ind2 then return (.kSuccess, d, ids)
          else return (.kFail, d, ids)
    else return (.kSuccess, d, [])

/-- The last loop of `decrease`. -/
def freeEach (bm : Bitmap) : List Int → Prog Ret
  | [] => return .kSuccess
  | i :: ids => do
    match ← bm.free (uint32 i) with
    | .kFail => return .kFail
    | .kSuccess => freeEach bm ids

/-- `decrease`; the block totals that the code also passes serve an assertion only. -/
def decrease (d : DiskInode) (oldData newData : Nat) (bm : Bitmap) (inode : Option Position) :
    Prog (Ret × DiskInode) := do
  let (ids0, d) := dropEach directAt setDirect (min oldData 23 - newData) newData d
  match ← decreaseIndirect1 d oldData newData with
  | (.kFail, d, _) => return (.kFail, d)
  | (.kSuccess, d, ids1) =>
    match ← decreaseIndirect2 d oldData newData with
    | (.kFail, d, _) => return (.kFail, d)
    | (.kSuccess, d, ids2) =>
      -- the inode goes out before the bits do; nobody looks at the result of the write
      match inode with
      | none => return (← freeEach bm (ids0 ++ ids1 ++ ids2), d)
      | some pos =>
        let _ ← writeInode pos d
        return (← freeEach bm (ids0 ++ ids1 ++ ids2), d)

def resize (d : DiskInode) (newSize : Nat) (bm : Bitmap) (inode : Option Position) :
    Prog (Ret × DiskInode) := do
  let d ← d.updateMeta 7
  let oldSize := d.size.toNat
  let d := { d with size := UInt32.ofNat newSize }
  if totalBlocks oldSize = totalBlocks newSize then do
    match inode with
    | none => return (.kSuccess, d)
    | some pos =>
      let _ ← writeInode pos d
      return (.kSuccess, d)
  else if totalBlocks newSize < totalBlocks oldSize then
    decrease d (dataBlocks oldSize) (dataBlocks newSize) bm inode
  else increase d (dataBlocks oldSize) (dataBlocks newSize) bm

/-! ### Clearing -/

/-- The first loop of `clear`. -/
def clearDirect (bm : Bitmap) : Nat → Nat → DiskInode → Prog (Ret × DiskInode)
  | 0, _, d => return (.kSuccess, d)
  | n + 1, i, d => do
    match ← bm.free (d.directAt i) with
    | .kFail => return (.kFail, d)
    | .kSuccess => clearDirect bm n (i + 1) (d.setDirect i kFailId)

/-- The loops of `clear` over `n` entries of an index block from `j` on. -/
def clearEntries (bm : Bitmap) (p : Block) : Nat → Nat → Prog Ret
  | 0, _ => return .kSuccess
  | n + 1, j => do
    match ← bm.free (entry p j) with
    | .kFail => return .kFail
    | .kSuccess => clearEntries bm p n (j + 1)

/-- The part of `clear` for `indirect1`; the condition on `data_blks` is called redundant. -/
def clearIndirect1 (d : DiskInode) (dataBlks : Nat) (bm : Bitmap) : Prog Ret := do
  if d.indirect1 ≠ 0 ∧ 1024 < dataBlks then
    match ← DevProg.readBlk d.indirect1.toNat with
    | none => return .kFail
    | some ind =>
      match ← clearEntries bm ind (min dataBlks 1047 - 23) 0 with
      | .kFail => return .kFail
      | .kSuccess => bm.free d.indirect1.toNat
  else return .kSuccess

/-- `p2[i]`, where `behind` is the memory behind the 1024 entries of the buffer. -/
def secondEntry (ind2 : Block) (behind : Nat → UInt32) (i : Nat) : Nat :=
  if i < 1024 then entry ind2 i else (behind i).toNat

/-- The loop of `clear` over the groups; `i` counts data blocks, also where it is an index. -/
def clearGroups (bm : Bitmap) (ind2 : Block) (behind : Nat → UInt32) (rest : Nat) : Nat → Nat → Prog Ret
  | 0, _ => return .kSuccess
  | n + 1, i => do
    match ← DevProg.readBlk (secondEntry ind2 behind i) with
    | none => return .kFail
    | some ind1 =>
      match ← clearEntries bm ind1 (min 1024 (rest - i)) 0 with
      | .kFail => return .kFail
      | .kSuccess =>
        match ← bm.free (secondEntry ind2 behind i) with
        | .kFail => return .kFail
        | .kSuccess => clearGroups bm ind2 behind rest n (i + 1024)

/-- The part of `clear` for `indirect2`. -/
def clearIndirect2 (d : DiskInode) (dataBlks : Nat) (behind : Nat → UInt32) (bm : Bitmap) : Prog Ret := do
  if d.indirect2 ≠ 0 ∧ 1047 < dataBlks then
    match ← DevProg.readBlk d.indirect2.toNat with
    | none => return .kFail
    | some ind2 =>
      match ← clearGroups bm ind2 behind (dataBlks - 1047) ((dataBlks - 1047 + 1023) / 1024) 0 with
      | .kFail => return .kFail
      | .kSuccess => bm.free d.indirect2.toNat
  else return .kSuccess

/-- `clear`, which nothing calls; the block total that the code also computes is not used. -/
def clear (d : DiskInode) (behind : Nat → UInt32) (bm : Bitmap) : Prog (Ret × DiskInode) := do
  match ← clearDirect bm (min (dataBlocks d.size.toNat) 23) 0 d with
  | (.kFail, d) => return (.kFail, d)
  | (.kSuccess, d) =>
    match ← clearIndirect1 d (dataBlocks d.size.toNat) bm with
    | .kFail => return (.kFail, d)
    | .kSuccess => return (← clearIndirect2 d (dataBlocks d.size.toNat) behind bm, d)

/-! ## The bytes of a file -/

/-- `x / kBlockSize` for an `int`: the division is done in `uint64_t`. -/
def blockQuot (x : Int) : Int := int32 ((x % 18446744073709551616).toNat / 4096)

/-- `x % kBlockSize` for an `int`. -/
def blockRem (x : Int) : Nat := (x % 18446744073709551616).toNat % 4096

/-- The length that `memcpy` gets for the `int` difference of two offsets. -/
def copyLen (roff loff : Nat) : Nat := (((roff : Int) - loff) % 18446744073709551616).toNat

/-- The loop of `read_data` over the blocks that are read whole. -/
def readBlocks (d : DiskInode) : Nat → Int → Nat → Mem → Prog (Bool × Mem)
  | 0, _, _, buf => return (true, buf)
  | n + 1, i, bufoffset, buf => do
    let blk ← d.blockId (uint32 i)
    match ← DevProg.readBlk blk with
    | none => return (false, buf)
    | some data => readBlocks d n (i + 1) (bufoffset + 4096) (splice buf bufoffset 4096 data.get)

/-- The part of `read_data` after the length is cut to the size: read `[l, r)`. -/
def readRange (d : DiskInode) (l r : Int) (buf : Mem) : Prog (Bool × Mem) := do
  let lid := blockQuot l
  let rid := blockQuot r
  let loff := blockRem l
  let roff := blockRem r
  let lblk ← d.blockId (uint32 lid)
  match ← DevProg.readBlk lblk with
  | none => return (false, buf)
  | some data =>
    if lid = rid then
      return (true, splice buf 0 (copyLen roff loff) fun i => data.get (loff + i))
    else
      let buf := splice buf 0 (4096 - loff) fun i => data.get (loff + i)
      let whole := (rid - (lid + 1)).toNat
      match ← readBlocks d whole (lid + 1) (4096 - loff) buf with
      | (false, buf) => return (false, buf)
      | (true, buf) =>
        if 0 < roff then do
          let rblk ← d.blockId (uint32 rid)
          match ← DevProg.readBlk rblk with
          | none => return (false, buf)
          | some data => return (true, splice buf (4096 - loff + 4096 * whole) roff data.get)
        else return (true, buf)

/-- The length that is left of `len` after the cut to the size of the file. -/
def cutLen (d : DiskInode) (offset len : Nat) : Nat :=
  if d.size.toNat ≤ (offset + len) % 4294967296 then d.size.toNat - offset else len

def readData (d : DiskInode) (offset len : Nat) (buf : Mem) : Prog (Int × Mem × DiskInode) := do
  let d ← d.updateMeta 1
  if len = 0 then return (0, buf, d)
  else if d.size.toNat < offset then return (-1, buf, d)
  else
    let len := d.cutLen offset len
    match ← d.readRange (int32 offset) (int32 (offset + len)) buf with
    | (false, buf) => return (-1, buf, d)
    | (true, buf) => return (int32 len, buf, d)

/-- The loop of `write_data` over the blocks that are written whole. -/
def writeBlocks (d : DiskInode) : Nat → Int → Nat → Mem → Prog Bool
  | 0, _, _, _ => return true
  | n + 1, i, bufoffset, buf => do
    let blk ← d.blockId (uint32 i)
    if ← DevProg.writeBlk blk (Bytes.ofMem fun p => buf (bufoffset + p)) then
      writeBlocks d n (i + 1) (bufoffset + 4096) buf
    else return false

/-- Read a block, copy `len` bytes into it at `off`, and write it back. -/
def patchBlock (blk off len : Nat) (buf : Mem) : Prog Bool := do
  match ← DevProg.readBlk blk with
  | none => return false
  | some data => DevProg.writeBlk blk (data.blit off len buf)

/-- The part of `write_data` after the length is cut to the size: write `[l, r)`. -/
def writeRange (d : DiskInode) (l r : Int) (buf : Mem) : Prog Bool := do
  let lid := blockQuot l
  let rid := blockQuot r
  let loff := blockRem l
  let roff := blockRem r
  let lblk ← d.blockId (uint32 lid)
  if lid = rid then patchBlock lblk loff (copyLen roff loff) buf
  else if ← patchBlock lblk loff (4096 - loff) buf then
    let whole := (rid - (lid + 1)).toNat
    if ← writeBlocks d whole (lid + 1) (4096 - loff) buf then
      if 0 < roff then do
        let rblk ← d.blockId (uint32 rid)
        patchBlock rblk 0 roff fun i => buf (4096 - loff + 4096 * whole + i)
      else return true
    else return false
  else return false

def writeData (d : DiskInode) (offset : Nat) (buf : Mem) (len : Nat) : Prog (Int × DiskInode) := do
  let d ← d.updateMeta 3
  if len = 0 then return (0, d)
  else if d.size.toNat < offset then return (-1, d)
  else
    let len := d.cutLen offset len
    if ← d.writeRange (int32 offset) (int32 (offset + len)) buf then return (int32 len, d)
    else return (-1, d)

/-! ## Syncing -/

/-- The loop of `sync_data` over the data blocks. -/
def syncBlocks (d : DiskInode) : Nat → Nat → Prog Ret
  | 0, _ => return .kSuccess
  | n + 1, i => do
    let blk ← d.blockId i
    if ← DevProg.syncBlk blk then syncBlocks d n (i + 1) else return .kFail

/-- The loop of `sync_data` over the second-level index blocks. -/
def syncEntries (p : Block) : Nat → Nat → Prog Ret
  | 0, _ => return .kSuccess
  | n + 1, i => do
    if ← DevProg.syncBlk (entry p i) then syncEntries p n (i + 1) else return .kFail

/-- The part of `sync_data` that `indirect` asks for. -/
def syncIndirect (d : DiskInode) : Prog Ret := do
  let first ← if d.indirect1 = 0 then pure true else DevProg.syncBlk d.indirect1.toNat
  if first then
    if d.indirect2 = 0 then return .kSuccess
    else
      let rest := ((totalBlocks d.size.toNat : Int) - dataBlocks d.size.toNat - 2).toNat
      match ← DevProg.readBlk d.indirect2.toNat with
      | none => return .kFail
      | some p =>
        match ← syncEntries p rest 0 with
        | .kFail => return .kFail
        | .kSuccess =>
          if ← DevProg.syncBlk d.indirect2.toNat then return .kSuccess else return .kFail
  else return .kFail

def syncData (d : DiskInode) (indirect : Bool) : Prog Ret := do
  match ← syncBlocks d (dataBlocks d.size.toNat) 0 with
  | .kFail => return .kFail
  | .kSuccess => if indirect then syncIndirect d else return .kSuccess

end DiskInode

end Sbfs
