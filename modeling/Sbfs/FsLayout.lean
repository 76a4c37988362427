import Sbfs.Config

/-! # On-disk structures

`fs_layout.h`: the records that the file system keeps in blocks, byte by byte as the
compiler lays them out (little endian, no padding), and the places it keeps them in. -/

namespace Sbfs

structure Position where
  blockId : Nat
  blockOffset : Nat
deriving Repr, DecidableEq

namespace Position

def invalid : Position := ⟨4294967295, 4294967295⟩

def isValid (pos : Position) : Bool := pos.blockId != 4294967295

end Position

/-! ## `DiskInode` -/

/-- `DiskInodeType`: an enumeration stored in a `uint32_t`, which holds whatever the
disk holds. -/
abbrev DiskInodeType := UInt32

def kFile : DiskInodeType := 0
def kDirectory : DiskInodeType := 1

structure DiskInode where
  size : UInt32
  accessTime : UInt32
  changeTime : UInt32
  modifyTime : UInt32
  uid : UInt16
  gid : UInt16
  linkCnt : UInt16
  mode : UInt16
  direct : Fin 23 → UInt32
  indirect1 : UInt32
  indirect2 : UInt32
  type : DiskInodeType

namespace DiskInode

/-- `direct[i]`. -/
def directAt (d : DiskInode) (i : Nat) : Nat := if h : i < 23 then (d.direct ⟨i, h⟩).toNat else 0

/-- `direct[i] = v`. -/
def setDirect (d : DiskInode) (i v : Nat) : DiskInode :=
  { d with direct := fun j => if j.val = i then UInt32.ofNat v else d.direct j }

theorem directAt_lt (d : DiskInode) (i : Nat) : d.directAt i < 4294967296 := by
  rw [directAt]
  split
  · exact (d.direct _).toNat_lt
  · omega

theorem directAt_setDirect {d : DiskInode} {i j v : Nat} (inside : i < 23) (small : v < 4294967296) :
    (d.setDirect i v).directAt j = if j = i then v else d.directAt j := by
  by_cases same : j = i
  · subst same
    simp [directAt, setDirect, inside, Nat.mod_eq_of_lt small]
  · simp only [directAt, setDirect, same, if_false]

@[simp] theorem setDirect_size (d : DiskInode) (i v : Nat) : (d.setDirect i v).size = d.size := rfl
@[simp] theorem setDirect_type (d : DiskInode) (i v : Nat) : (d.setDirect i v).type = d.type := rfl
@[simp] theorem setDirect_linkCnt (d : DiskInode) (i v : Nat) :
    (d.setDirect i v).linkCnt = d.linkCnt := rfl
@[simp] theorem setDirect_indirect1 (d : DiskInode) (i v : Nat) :
    (d.setDirect i v).indirect1 = d.indirect1 := rfl
@[simp] theorem setDirect_indirect2 (d : DiskInode) (i v : Nat) :
    (d.setDirect i v).indirect2 = d.indirect2 := rfl

/-- The 128 bytes of the record. -/
def toMem (d : DiskInode) : Mem := fun p =>
  if p < 4 then leByte d.size.toNat p
  else if p < 8 then leByte d.accessTime.toNat (p - 4)
  else if p < 12 then leByte d.changeTime.toNat (p - 8)
  else if p < 16 then leByte d.modifyTime.toNat (p - 12)
  else if p < 18 then leByte d.uid.toNat (p - 16)
  else if p < 20 then leByte d.gid.toNat (p - 18)
  else if p < 22 then leByte d.linkCnt.toNat (p - 20)
  else if p < 24 then leByte d.mode.toNat (p - 22)
  else if p < 116 then leByte (d.directAt ((p - 24) / 4)) ((p - 24) % 4)
  else if p < 120 then leByte d.indirect1.toNat (p - 116)
  else if p < 124 then leByte d.indirect2.toNat (p - 120)
  else leByte d.type.toNat (p - 124)

/-- The record in the 128 bytes at `f`. -/
def ofMem (f : Mem) : DiskInode :=
  let u32 (start : Nat) : UInt32 := UInt32.ofNat (le (fun i => f (start + i)) 4)
  let u16 (start : Nat) : UInt16 := UInt16.ofNat (le (fun i => f (start + i)) 2)
  { size := u32 0
    accessTime := u32 4
    changeTime := u32 8
    modifyTime := u32 12
    uid := u16 16
    gid := u16 18
    linkCnt := u16 20
    mode := u16 22
    direct := fun i => u32 (24 + 4 * i)
    indirect1 := u32 116
    indirect2 := u32 120
    type := u32 124 }

theorem ofMem_congr {f g : Mem} (same : ∀ i, i < 128 → f i = g i) : ofMem f = ofMem g := by
  have word : ∀ w start, start + w ≤ 128 →
      le (fun i => f (start + i)) w = le (fun i => g (start + i)) w :=
    fun w start fits => le_congr fun i bound => same _ (by omega)
  simp only [ofMem, mk.injEq]
  refine ⟨?_, ?_, ?_, ?_, ?_, ?_, ?_, ?_, ?_, ?_, ?_, ?_⟩
  case refine_9 =>
    funext i
    rw [word 4 _ (by omega)]
  all_goals rw [word _ _ (by omega)]

/-- The fields come back from their bytes. -/
theorem ofMem_toMem (d : DiskInode) : ofMem d.toMem = d := by
  have u32 : ∀ (v : UInt32) start, (∀ i, i < 4 → d.toMem (start + i) = leByte v.toNat i) →
      UInt32.ofNat (le (fun i => d.toMem (start + i)) 4) = v := by
    intro v start bytes
    rw [le_congr bytes, le_leByte, Nat.mod_eq_of_lt (show v.toNat < 256 ^ 4 from v.toNat_lt),
      UInt32.ofNat_toNat]
  have u16 : ∀ (v : UInt16) start, (∀ i, i < 2 → d.toMem (start + i) = leByte v.toNat i) →
      UInt16.ofNat (le (fun i => d.toMem (start + i)) 2) = v := by
    intro v start bytes
    rw [le_congr bytes, le_leByte, Nat.mod_eq_of_lt (show v.toNat < 256 ^ 2 from v.toNat_lt),
      UInt16.ofNat_toNat]
  have direct : (fun i : Fin 23 =>
      UInt32.ofNat (le (fun j => d.toMem (24 + 4 * i.val + j)) 4)) = d.direct := by
    funext i
    refine u32 _ _ fun j bound => ?_
    have quot : (24 + 4 * i.val + j - 24) / 4 = i := by omega
    have rem : (24 + 4 * i.val + j - 24) % 4 = j := by omega
    have value : d.directAt i = (d.direct i).toNat := by simp [directAt]
    simp only [toMem]
    iterate 8 rw [if_neg (by omega)]
    rw [if_pos (by omega), quot, rem, value]
  simp only [ofMem, direct]
  congr 1
  all_goals first | apply u32 | apply u16
  all_goals
    intro i bound
    rcases i with _ | _ | _ | _ | i
    all_goals first | rfl | omega

end DiskInode

/-- The `DiskInode` at an offset of a block. -/
def inodeIn (blk : Block) (start : Nat) : DiskInode := .ofMem fun i => blk.get (start + i)

/-- `memcpy` of a `DiskInode` into a block. -/
def putInode (blk : Block) (start : Nat) (d : DiskInode) : Block := blk.blit start 128 d.toMem

theorem inodeIn_putInode (blk : Block) {start : Nat} (d : DiskInode) (fits : start + 128 ≤ 4096) :
    inodeIn (putInode blk start d) start = d := by
  rw [inodeIn, ← DiskInode.ofMem_toMem d]
  refine DiskInode.ofMem_congr fun i bound => ?_
  rw [DiskInode.ofMem_toMem, putInode, Bytes.get_blit _ _ (by omega),
    splice_inside (by omega) (by omega)]
  congr 1
  omega

theorem inodeIn_putInode_disjoint (blk : Block) {start other : Nat} (d : DiskInode)
    (apart : other + 128 ≤ start ∨ start + 128 ≤ other) :
    inodeIn (putInode blk start d) other = inodeIn blk other := by
  refine DiskInode.ofMem_congr fun i bound => ?_
  by_cases h : other + i < 4096
  · rw [putInode, Bytes.get_blit _ _ h, splice_outside (by omega)]
  · rw [Bytes.get_of_ge _ (by omega), Bytes.get_of_ge _ (by omega)]

/-! ## Index blocks -/

/-- Entry `i` of a block read as an array of `uint32_t`. -/
def entry (blk : Block) (i : Nat) : Nat := blk.getLE 4 (4 * i)

def setEntry (blk : Block) (i v : Nat) : Block := blk.setLE 4 (4 * i) v

theorem entry_lt (blk : Block) (i : Nat) : entry blk i < 4294967296 := blk.getLE_lt 4 _

theorem entry_setEntry (blk : Block) {i j v : Nat} (inside : i < 1024) (small : v < 4294967296) :
    entry (setEntry blk i v) j = if j = i then v else entry blk j := by
  split
  next same =>
    subst same
    rw [entry, setEntry, Bytes.getLE_setLE_same _ _ (by omega),
      Nat.mod_eq_of_lt (show v < 256 ^ 4 from small)]
  next ne => exact Bytes.getLE_setLE_disjoint _ _ (by omega)

/-! ## Directory entries -/

/-- A C string without its terminating zero. -/
abbrev Name := List UInt8

/-- `DirEntry(name, inode)`: at most 251 bytes of the name, zeros up to offset 252,
and the inode id. -/
def dirEntry (name : Name) (inode : Nat) : Mem := fun i =>
  if i < 252 then (if i < kMaxDirNameLength then name.getD i 0 else 0) else leByte inode (i - 252)

/-- `strcmp(s, name) == 0` for a `name` without zero bytes. -/
def strEq (s : Mem) (name : Name) : Bool :=
  (List.range name.length).all (fun i => s i == name.getD i 0) && s name.length == 0

/-! ## The file system object -/

structure Bitmap where
  startBlockId : Nat
  numBlocks : Nat
  dataSegmentOffset : Nat

structure SuperBlock where
  magic : Nat
  totalBlocks : Nat
  inodeBitmapBlocks : Nat
  inodeAreaBlocks : Nat
  dataBitmapBlocks : Nat
  dataAreaBlocks : Nat
  rootInodePos : Position

namespace SuperBlock

/-- The block written to block 0; the constructor leaves the padding unset. -/
def toBlock (sb : SuperBlock) : Block :=
  let put (blk : Block) (i v : Nat) : Block := setEntry blk i v
  put (put (put (put (put (put (put (put Bytes.zero 0 sb.magic) 1 sb.totalBlocks)
    2 sb.inodeBitmapBlocks) 3 sb.inodeAreaBlocks) 4 sb.dataBitmapBlocks) 5 sb.dataAreaBlocks)
    6 sb.rootInodePos.blockId) 7 sb.rootInodePos.blockOffset

end SuperBlock

/-- `SBFileSystem`, without the device. -/
structure SBFileSystem where
  superBlock : SuperBlock
  inodeBitmap : Bitmap
  dataBitmap : Bitmap
  inodeAreaStartBlock : Nat
  dataAreaStartBlock : Nat

end Sbfs
