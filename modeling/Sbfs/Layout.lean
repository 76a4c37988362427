import Sbfs.Bitmap
import Mathlib.Tactic.IntervalCases

/-! # The regions of the disk

`sbfs.cpp`: the sizes that `SBFileSystem::create` computes, the regions that
`initBitmapAndBlock` derives from them, and the place of each inode.

A `Layout` is a pair of arguments of `create` that leaves room for at least one data
bitmap block and overflows no sum; the lemmas give the regions in closed form.  The
ids of the inode bitmap start at `data_segment_offset`, and `getDiskInodePos` counts
from the start of the area, so the last slots lie outside the area
(`allocInode_slot_iff`). -/

namespace Sbfs

/-- The fields that `SBFileSystem::create` computes before the root exists. -/
def SuperBlock.format (totalBlocks inodeBitmapBlocks : Nat) : SuperBlock :=
  let inodeAreaBlocks := inodeBitmapBlocks * 8 % 4294967296 * 4096 / 32 % 4294967296
  let remainingBlocks := uint32 (totalBlocks - inodeBitmapBlocks - inodeAreaBlocks)
  let dataBitmapBlocks := remainingBlocks / (1 + 8 * 4096)
  { magic := kFSMagic
    totalBlocks
    inodeBitmapBlocks
    inodeAreaBlocks
    dataBitmapBlocks
    dataAreaBlocks := dataBitmapBlocks * 8 % 4294967296 * 4096 % 4294967296
    rootInodePos := .invalid }

namespace SBFileSystem

/-- `initBitmapAndBlock`. -/
def initBitmapAndBlock (sb : SuperBlock) : SBFileSystem :=
  let inodeBitmapOffset := 1
  let inodeAreaOffset := (inodeBitmapOffset + sb.inodeBitmapBlocks) % 4294967296
  let dataBitmapOffset := (inodeAreaOffset + sb.inodeAreaBlocks) % 4294967296
  let dataAreaOffset := (dataBitmapOffset + sb.dataBitmapBlocks) % 4294967296
  { superBlock := sb
    inodeBitmap := ⟨inodeBitmapOffset, sb.inodeBitmapBlocks, inodeAreaOffset⟩
    dataBitmap := ⟨dataBitmapOffset, sb.dataBitmapBlocks, dataAreaOffset⟩
    inodeAreaStartBlock := inodeAreaOffset
    dataAreaStartBlock := dataAreaOffset }

def getDiskInodePos (fs : SBFileSystem) (inodeId : Nat) : Position :=
  { blockId := (fs.inodeAreaStartBlock + inodeId / 32) % 4294967296
    blockOffset := inodeId % 32 * 128 }

def getDiskInodeId (fs : SBFileSystem) (pos : Position) : Nat :=
  (uint32 (pos.blockId - fs.inodeAreaStartBlock) * 32 + pos.blockOffset / 128) % 4294967296

def allocInode (fs : SBFileSystem) : Prog Nat := fs.inodeBitmap.alloc

def allocData (fs : SBFileSystem) : Prog Nat := fs.dataBitmap.alloc

def freeInode (fs : SBFileSystem) (inodeId : Nat) : Prog Ret := fs.inodeBitmap.free inodeId

def freeData (fs : SBFileSystem) (blockId : Nat) : Prog Ret := fs.dataBitmap.free blockId

end SBFileSystem

/-- Arguments of `SBFileSystem::create` with at least one block in each bitmap and no
overflow in the sums that place the regions. -/
structure Layout where
  totalBlocks : Nat
  inodeBitmapBlocks : Nat
  someInodes : 1 ≤ inodeBitmapBlocks
  someData : 1025 * inodeBitmapBlocks + 32769 ≤ totalBlocks
  total32 : totalBlocks < 4294967296
  sums32 : 1 + 1025 * inodeBitmapBlocks +
    32769 * ((totalBlocks - 1025 * inodeBitmapBlocks) / 32769) < 4294967296

namespace Layout

variable (L : Layout)

/-- The arguments that `init_vfs` passes. -/
def default : Layout where
  totalBlocks := 4194304
  inodeBitmapBlocks := 1
  someInodes := by decide
  someData := by decide
  total32 := by decide
  sums32 := by decide

def dataBitmapBlocks : Nat := (L.totalBlocks - 1025 * L.inodeBitmapBlocks) / 32769

def inodeAreaStart : Nat := 1 + L.inodeBitmapBlocks

def dataBitmapStart : Nat := 1 + 1025 * L.inodeBitmapBlocks

def dataAreaStart : Nat := L.dataBitmapStart + L.dataBitmapBlocks

/-- The first block after the data area. -/
def areaEnd : Nat := L.dataAreaStart + 32768 * L.dataBitmapBlocks

/-- The file system before the root exists. -/
def formatted : SBFileSystem :=
  .initBitmapAndBlock (.format L.totalBlocks L.inodeBitmapBlocks)

theorem dataBitmap_pos : 1 ≤ L.dataBitmapBlocks := by
  have := L.someData
  rw [dataBitmapBlocks]
  omega

theorem areaEnd_lt : L.areaEnd < 4294967296 := by
  have := L.sums32
  rw [areaEnd, dataAreaStart, dataBitmapStart, dataBitmapBlocks]
  omega

/-- The sizes and the offsets in closed form. -/
theorem formatted_eq : L.formatted =
    { superBlock :=
        { magic := kFSMagic
          totalBlocks := L.totalBlocks
          inodeBitmapBlocks := L.inodeBitmapBlocks
          inodeAreaBlocks := 1024 * L.inodeBitmapBlocks
          dataBitmapBlocks := L.dataBitmapBlocks
          dataAreaBlocks := 32768 * L.dataBitmapBlocks
          rootInodePos := .invalid }
      inodeBitmap := ⟨1, L.inodeBitmapBlocks, L.inodeAreaStart⟩
      dataBitmap := ⟨L.dataBitmapStart, L.dataBitmapBlocks, L.dataAreaStart⟩
      inodeAreaStartBlock := L.inodeAreaStart
      dataAreaStartBlock := L.dataAreaStart } := by
  have room := L.someData
  have total := L.total32
  have sums := L.areaEnd_lt
  have area : L.inodeBitmapBlocks * 8 % 4294967296 * 4096 / 32 % 4294967296 =
      1024 * L.inodeBitmapBlocks := by omega
  have remaining : uint32 ((L.totalBlocks : Int) - L.inodeBitmapBlocks -
      (1024 * L.inodeBitmapBlocks : Nat)) = L.totalBlocks - 1025 * L.inodeBitmapBlocks := by
    rw [uint32]
    omega
  have bitmap : (L.totalBlocks - 1025 * L.inodeBitmapBlocks) / (1 + 8 * 4096) =
      L.dataBitmapBlocks := rfl
  simp only [areaEnd, dataAreaStart, dataBitmapStart] at sums
  have data : L.dataBitmapBlocks * 8 % 4294967296 * 4096 % 4294967296 =
      32768 * L.dataBitmapBlocks := by omega
  have inodes : (1 + L.inodeBitmapBlocks) % 4294967296 = L.inodeAreaStart := by
    rw [inodeAreaStart]
    omega
  have bitmapStart : (L.inodeAreaStart + 1024 * L.inodeBitmapBlocks) % 4294967296 =
      L.dataBitmapStart := by
    rw [inodeAreaStart, dataBitmapStart]
    omega
  have areaStart : (L.dataBitmapStart + L.dataBitmapBlocks) % 4294967296 = L.dataAreaStart := by
    rw [dataAreaStart, dataBitmapStart]
    omega
  simp only [formatted, SuperBlock.format, SBFileSystem.initBitmapAndBlock, area, remaining,
    bitmap, data, inodes, bitmapStart, areaStart]

end Layout

/-! ## The slot of a new inode -/

/-- The bytes of a `DiskInode` at `pos` lie in the inode area, so in no other region. -/
structure SlotInside (fs : SBFileSystem) (pos : Position) : Prop where
  lower : fs.inodeAreaStartBlock ≤ pos.blockId
  upper : pos.blockId < fs.inodeAreaStartBlock + fs.superBlock.inodeAreaBlocks
  inBlock : pos.blockOffset + 128 ≤ 4096
  notInodeBitmap : ¬ fs.inodeBitmap.Holds pos.blockId
  notDataBitmap : ¬ fs.dataBitmap.Holds pos.blockId
  notDataArea : pos.blockId < fs.dataAreaStartBlock

theorem slotInside_iff (L : Layout) {id : Nat} (id32 : id < 4294967296) :
    SlotInside L.formatted (L.formatted.getDiskInodePos id) ↔
      id < 32768 * L.inodeBitmapBlocks := by
  have sums := L.areaEnd_lt
  have start : L.inodeAreaStart + id / 32 < 4294967296 := by
    have := L.someData
    have := L.total32
    rw [Layout.inodeAreaStart]
    omega
  have place : L.formatted.getDiskInodePos id =
      ⟨L.inodeAreaStart + id / 32, id % 32 * 128⟩ := by
    rw [SBFileSystem.getDiskInodePos, L.formatted_eq]
    simp only [Nat.mod_eq_of_lt start]
  rw [place, L.formatted_eq]
  constructor
  · intro inside
    have := inside.upper
    simp only at this
    omega
  · intro small
    constructor
    case lower => simp only; omega
    case upper => simp only; omega
    case inBlock => simp only; omega
    case notInodeBitmap =>
      simp only [Bitmap.Holds, Layout.inodeAreaStart]
      omega
    case notDataBitmap =>
      simp only [Bitmap.Holds, Layout.inodeAreaStart, Layout.dataBitmapStart]
      omega
    case notDataArea =>
      simp only [Layout.dataAreaStart, Layout.inodeAreaStart, Layout.dataBitmapStart]
      omega

/-- The slot of the inode that `alloc_inode` returns lies in the inode area exactly when
the lowest clear bit, shifted by the offset of the segment, still numbers a slot. -/
theorem allocInode_slot_iff (L : Layout) {s : Disk} (io : L.formatted.inodeBitmap.Fits s.count)
    {i : Nat} {rest : List Nat} (free : L.formatted.inodeBitmap.freeBits s.blocks = i :: rest) :
    SlotInside L.formatted (L.formatted.getDiskInodePos (L.formatted.allocInode.run s).1) ↔
      (1 + L.inodeBitmapBlocks + i) % 4294967296 < 32768 * L.inodeBitmapBlocks := by
  have offset : L.formatted.inodeBitmap.dataSegmentOffset = 1 + L.inodeBitmapBlocks := by
    rw [L.formatted_eq]
    rfl
  rw [SBFileSystem.allocInode, Bitmap.run_alloc_cons io free, offset]
  exact slotInside_iff L (Nat.mod_lt _ (by omega))

/-! ### The last two slots -/

/-- A device whose inode bitmap has only its two highest bits clear. -/
def nearlyFull : Disk where
  count := 4194304
  blocks b := fun i => if b = 1 then if i.val = 4095 then 63 else 255 else 0
  writes := []
  clock _ := 0
  syncs _ := true

theorem nearlyFull_bit (t : Nat) (inside : t < 32768) :
    Layout.default.formatted.inodeBitmap.bit nearlyFull.blocks t = decide (t < 32766) := by
  have low : t / 32768 = 0 := by omega
  have byte : (nearlyFull.blocks 1).get (t % 32768 / 8) =
      if t / 8 = 4095 then 63 else 255 := by
    rw [Nat.mod_eq_of_lt inside, Bytes.get, dif_pos (by omega)]
    rfl
  rw [Layout.formatted_eq]
  simp only [Bitmap.bit, low, Nat.add_zero, Bytes.bit, byte]
  split
  next last =>
    have cases : t = 32760 + t % 8 := by omega
    have bound : t % 8 < 8 := by omega
    rw [Nat.mod_mod_of_dvd _ (by decide)]
    generalize t % 8 = r at cases bound
    subst cases
    interval_cases r <;> decide
  next before =>
    rw [decide_eq_true (show t < 32766 by omega), Nat.mod_mod_of_dvd _ (by decide)]
    have bound : t % 8 < 8 := by omega
    generalize t % 8 = r at bound
    interval_cases r <;> decide

theorem nearlyFull_free :
    ∃ rest, Layout.default.formatted.inodeBitmap.freeBits nearlyFull.blocks = 32766 :: rest := by
  have capacity : Layout.default.formatted.inodeBitmap.capacity = 32768 := by
    rw [Layout.formatted_eq]
    rfl
  have head : (Layout.default.formatted.inodeBitmap.freeBits nearlyFull.blocks).head? =
      some 32766 := by
    rw [Bitmap.head_freeBits, capacity]
    refine ⟨by omega, by rw [nearlyFull_bit _ (by omega)]; rfl, fun t below => ?_⟩
    rw [nearlyFull_bit t (by omega), decide_eq_true below]
  exact ⟨_, List.eq_cons_of_mem_head? head⟩

theorem nearlyFull_fits : Layout.default.formatted.inodeBitmap.Fits nearlyFull.count := by
  rw [Layout.formatted_eq]
  constructor <;> decide

theorem allocInode_slot_iff_nearlyFull :
    SlotInside Layout.default.formatted (Layout.default.formatted.getDiskInodePos
      (Layout.default.formatted.allocInode.run nearlyFull).1) ↔ 32768 < 32768 := by
  obtain ⟨rest, free⟩ := nearlyFull_free
  exact allocInode_slot_iff Layout.default nearlyFull_fits free

/-- With 32766 inodes in use `alloc_inode` returns id 32768, whose slot is past the area. -/
theorem allocInode_slot_outside :
    ¬ ∀ (L : Layout) (s : Disk), L.formatted.inodeBitmap.Fits s.count →
      (L.formatted.allocInode.run s).1 ≠ kFailId →
      SlotInside L.formatted (L.formatted.getDiskInodePos (L.formatted.allocInode.run s).1) := by
  intro always
  obtain ⟨rest, free⟩ := nearlyFull_free
  have id : (Layout.default.formatted.allocInode.run nearlyFull).1 = 32768 := by
    rw [SBFileSystem.allocInode, Bitmap.run_alloc_cons nearlyFull_fits free,
      Layout.formatted_eq]
    rfl
  have inside := always Layout.default nearlyFull nearlyFull_fits (by rw [id]; decide)
  rw [id, slotInside_iff Layout.default (by decide)] at inside
  exact absurd inside (by decide)

end Sbfs
