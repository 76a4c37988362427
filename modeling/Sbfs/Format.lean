import Sbfs.Directory

/-! # Formatting a disk

The sizes that `SBFileSystem::create` computes and the offsets that
`initBitmapAndBlock` derives from them never let two regions overlap, and no bitmap
hands out an id outside its segment.  Whether the regions also fit on the disk is a
question about one remainder: `create` leaves the super block out when it computes
how many blocks remain (`regionsFit_iff`).

`create` then allocates the root in bitmaps that it never clears, so what it finds there
is what the backing file held before (`create_clean_iff`). -/

namespace Sbfs

/-! ## What the allocator can return -/

theorem ctzll_lt {x k : Nat} (found : ctzll x = some k) : k < 64 :=
  List.mem_range.mp (List.mem_of_find?_eq_some found)

theorem leadingZero_lt {x k : Nat} (found : leadingZero x = some k) : k < 64 := by
  rw [leadingZero] at found
  split at found
  · cases found
  · exact ctzll_lt found

theorem findFreeFrom_lt {buf : Block} {n j : Nat} {slot : Nat × Nat}
    (found : findFreeFrom buf n j = some slot) : slot.1 < j + n ∧ slot.2 < 64 := by
  induction n generalizing j with
  | zero => cases found
  | succ n ih =>
    rw [findFreeFrom] at found
    cases zero : leadingZero (word buf j) with
    | some k =>
      simp only [zero, Option.some.injEq] at found
      subst found
      exact ⟨by omega, leadingZero_lt zero⟩
    | none =>
      simp only [zero] at found
      have := ih found
      omega

namespace Bitmap

theorem run_allocFrom_mem (bm : Bitmap) (s : Disk) {n i : Nat} (bound : i + n = bm.numBlocks) :
    ((bm.allocFrom n i).run s).1 = kFailId ∨ ∃ a, a < bm.capacity ∧
      ((bm.allocFrom n i).run s).1 = (bm.dataSegmentOffset + a) % 4294967296 := by
  induction n generalizing i with
  | zero => exact .inl rfl
  | succ n ih =>
    by_cases readable : (bm.startBlockId + i) % 4294967296 < s.count
    case neg =>
      left
      rw [allocFrom, DevProg.run_bind, DevProg.run_readBlk_of_ge (by omega)]
      rfl
    rw [allocFrom, DevProg.run_bind, DevProg.run_readBlk_of_lt readable]
    cases free : findFree (s.blocks ((bm.startBlockId + i) % 4294967296)) with
    | none =>
      simp only [free]
      exact ih (by omega)
    | some slot =>
      obtain ⟨j, k⟩ := slot
      obtain ⟨word_inside, bit_inside⟩ := findFreeFrom_lt free
      simp only [free, DevProg.run_bind, DevProg.run_writeBlk_of_lt _ readable, if_true,
        DevProg.run_pure]
      -- bit `k` of word `j` of block `i`
      refine .inr ⟨i * 32768 + j * 64 + k, ?_, by rw [Nat.add_comm]⟩
      simp only at word_inside bit_inside
      rw [capacity]
      omega

/-- Whatever the device holds and wherever its end is, `alloc` fails or returns an id of the
segment. -/
theorem run_alloc_mem (bm : Bitmap) (s : Disk) : (bm.alloc.run s).1 = kFailId ∨
    ∃ a, a < bm.capacity ∧ (bm.alloc.run s).1 = (bm.dataSegmentOffset + a) % 4294967296 :=
  bm.run_allocFrom_mem s (by omega)

end Bitmap

/-! ## The five regions -/

/-- First block and number of blocks of the super block, the inode bitmap, the inode area,
the data bitmap and the data area. -/
def SBFileSystem.regions (fs : SBFileSystem) : List (Nat × Nat) :=
  [(0, 1),
   (fs.inodeBitmap.startBlockId, fs.inodeBitmap.numBlocks),
   (fs.inodeAreaStartBlock, fs.superBlock.inodeAreaBlocks),
   (fs.dataBitmap.startBlockId, fs.dataBitmap.numBlocks),
   (fs.dataAreaStartBlock, fs.superBlock.dataAreaBlocks)]

/-- No two regions share a block, all of them lie on the disk, and so does every block that
the data bitmap hands out. -/
structure RegionsFit (fs : SBFileSystem) : Prop where
  disjoint : fs.regions.Pairwise fun r q => ∀ b,
    ¬ ((r.1 ≤ b ∧ b < r.1 + r.2) ∧ (q.1 ≤ b ∧ b < q.1 + q.2))
  onDisk : ∀ r ∈ fs.regions, ∀ b, r.1 ≤ b → b < r.1 + r.2 → b < fs.superBlock.totalBlocks
  alloc : ∀ s : Disk, (fs.allocData.run s).1 ≠ kFailId →
    fs.dataAreaStartBlock ≤ (fs.allocData.run s).1 ∧
    (fs.allocData.run s).1 < fs.dataAreaStartBlock + fs.superBlock.dataAreaBlocks ∧
    (fs.allocData.run s).1 < fs.superBlock.totalBlocks

namespace Layout

variable (L : Layout)

theorem regions_formatted : L.formatted.regions =
    [(0, 1), (1, L.inodeBitmapBlocks), (L.inodeAreaStart, 1024 * L.inodeBitmapBlocks),
     (L.dataBitmapStart, L.dataBitmapBlocks), (L.dataAreaStart, 32768 * L.dataBitmapBlocks)] := by
  rw [SBFileSystem.regions, L.formatted_eq]

theorem regions_disjoint : L.formatted.regions.Pairwise fun r q => ∀ b,
    ¬ ((r.1 ≤ b ∧ b < r.1 + r.2) ∧ (q.1 ≤ b ∧ b < q.1 + q.2)) := by
  -- every region ends before the later ones start
  have ordered : L.formatted.regions.Pairwise fun r q => r.1 + r.2 ≤ q.1 := by
    rw [regions_formatted]
    simp only [List.pairwise_cons, List.mem_cons, List.not_mem_nil, or_false, forall_eq_or_imp,
      forall_eq, false_imp_iff, implies_true, List.Pairwise.nil, and_true, inodeAreaStart,
      dataAreaStart, dataBitmapStart]
    omega
  apply ordered.imp
  intro r q before b both
  omega

theorem regions_end : ∀ r ∈ L.formatted.regions, r.1 + r.2 ≤ L.areaEnd := by
  rw [regions_formatted]
  simp only [List.mem_cons, List.not_mem_nil, or_false, forall_eq_or_imp, forall_eq, areaEnd,
    inodeAreaStart, dataAreaStart, dataBitmapStart]
  omega

theorem alloc_formatted (s : Disk) (given : (L.formatted.allocData.run s).1 ≠ kFailId) :
    L.dataAreaStart ≤ (L.formatted.allocData.run s).1 ∧
      (L.formatted.allocData.run s).1 < L.areaEnd := by
  have small := L.areaEnd_lt
  cases L.formatted.dataBitmap.run_alloc_mem s with
  | inl failed => exact absurd failed given
  | inr returned =>
    obtain ⟨a, inside, value⟩ := returned
    rw [SBFileSystem.allocData, value]
    rw [Bitmap.capacity, L.formatted_eq] at inside
    rw [L.formatted_eq]
    rw [areaEnd] at small ⊢
    simp only at inside ⊢
    omega

/-- How far the data area reaches: one block past the disk when the division is exact. -/
theorem areaEnd_le_iff :
    L.areaEnd ≤ L.totalBlocks ↔ (L.totalBlocks - 1025 * L.inodeBitmapBlocks) % 32769 ≠ 0 := by
  have room := L.someData
  rw [areaEnd, dataAreaStart, dataBitmapStart, dataBitmapBlocks]
  omega

end Layout

/-- The regions fit exactly when the blocks that remain for the data are no multiple of the
blocks that one data bitmap block takes. -/
theorem regionsFit_iff (L : Layout) : RegionsFit L.formatted ↔
    (L.totalBlocks - 1025 * L.inodeBitmapBlocks) % 32769 ≠ 0 := by
  rw [← L.areaEnd_le_iff]
  have total : L.formatted.superBlock.totalBlocks = L.totalBlocks := by rw [L.formatted_eq]
  have start : L.formatted.dataAreaStartBlock = L.dataAreaStart := by rw [L.formatted_eq]
  have length : L.formatted.superBlock.dataAreaBlocks = 32768 * L.dataBitmapBlocks := by
    rw [L.formatted_eq]
  constructor
  · intro fit
    have positive := L.dataBitmap_pos
    rw [Layout.areaEnd]
    -- the last block of the data area is on the disk
    have last := fit.onDisk (L.dataAreaStart, 32768 * L.dataBitmapBlocks)
      (by rw [L.regions_formatted]; simp) (L.dataAreaStart + (32768 * L.dataBitmapBlocks - 1))
      (Nat.le_add_right _ _) (by simp only; omega)
    rw [total] at last
    omega
  · intro fits
    have room := L.dataBitmap_pos
    constructor
    case disjoint => exact L.regions_disjoint
    case onDisk =>
      intro r member b _ upper
      have := L.regions_end r member
      rw [total]
      omega
    case alloc =>
      intro s given
      have area := L.alloc_formatted s given
      rw [total, start, length]
      rw [Layout.areaEnd] at area fits
      omega

/-- A disk with room for one data bitmap block and the blocks it manages, but not for the
super block. -/
def exactLayout : Layout where
  totalBlocks := 33794
  inodeBitmapBlocks := 1
  someInodes := Nat.one_pos
  someData := by decide
  total32 := by decide
  sums32 := by decide

/-- On that disk the last block of the data area is past the end. -/
theorem exactLayout_overruns : ¬ ∀ L : Layout, RegionsFit L.formatted := by
  intro always
  have last := (always exactLayout).onDisk (1027, 32768)
    (by rw [exactLayout.regions_formatted]; decide) 33794 (by decide) (by decide)
  rw [exactLayout.formatted_eq] at last
  exact absurd last (by decide)

/-! ## The root -/

/-- The block of the root directory; the rest of it is what the constructor of `DirEntry`
leaves, entries without a name. -/
def rootDirBlock (rootInodeId : Nat) : Block :=
  Bytes.ofMem fun p => if p < 512 then Inode.dotEntries rootInodeId rootInodeId p else 0

namespace SBFileSystem

/-- `super_block_.root_inode_pos = pos`. -/
def setRoot (fs : SBFileSystem) (pos : Position) : SBFileSystem :=
  { fs with superBlock := { fs.superBlock with rootInodePos := pos } }

/-- `createRoot`; nobody looks at the results of the writes. -/
def createRoot (fs : SBFileSystem) (uid gid : UInt16) : Prog SBFileSystem := do
  let rootInodeId ← fs.allocInode
  let rootDataId ← fs.allocData
  let d ← DiskInode.new kDirectory uid gid
  let d := DiskInode.setDirect { d with size := 512, mode := d.mode ||| 493 } 0 rootDataId
  let pos := fs.getDiskInodePos rootInodeId
  let _ ← writeInode pos d
  let _ ← DevProg.writeBlk rootDataId (rootDirBlock rootInodeId)
  let fs := fs.setRoot pos
  let _ ← DevProg.writeBlk 0 fs.superBlock.toBlock
  return fs

/-- `SBFileSystem::create` on the device that it has opened. -/
def create (totalBlocks inodeBitmapBlocks : Nat) (uid gid : UInt16) : Prog SBFileSystem := do
  let superBlock := SuperBlock.format totalBlocks inodeBitmapBlocks
  let _ ← DevProg.writeBlk 0 superBlock.toBlock
  (initBitmapAndBlock superBlock).createRoot uid gid

end SBFileSystem

/-- Exactly bit `i` of the bitmap is set. -/
def OnlyBit (bm : Bitmap) (D : Nat → Block) (i : Nat) : Prop :=
  i < bm.capacity ∧ ∀ j, j < bm.capacity → (bm.bit D j = true ↔ j = i)

/-- No bit of the bitmap is set. -/
def NoBit (bm : Bitmap) (D : Nat → Block) : Prop := ∀ i, i < bm.capacity → bm.bit D i = false

namespace SBFileSystem

/-- The id of the root. -/
def rootId (fs : SBFileSystem) : Nat := fs.getDiskInodeId fs.superBlock.rootInodePos

/-- The root as the disk has it. -/
def rootInode (fs : SBFileSystem) (D : Nat → Block) : DiskInode :=
  inodeIn (D fs.superBlock.rootInodePos.blockId) fs.superBlock.rootInodePos.blockOffset

end SBFileSystem

/-- A file system that holds its root and nothing else. -/
structure CleanSlate (fs : SBFileSystem) (s : Disk) : Prop where
  inodeBit : ∃ i, OnlyBit fs.inodeBitmap s.blocks i ∧ fs.rootId = fs.inodeBitmap.dataSegmentOffset + i
  dataBit : ∃ i, OnlyBit fs.dataBitmap s.blocks i ∧
    (fs.rootInode s.blocks).directAt 0 = fs.dataBitmap.dataSegmentOffset + i
  type : (fs.rootInode s.blocks).type = kDirectory
  size : (fs.rootInode s.blocks).size.toNat = 512
  entries : (fs.rootInode s.blocks).entries s.blocks = [([46], fs.rootId), ([46, 46], fs.rootId)]

namespace Bitmap

variable {bm : Bitmap} {s : Disk}

theorem run_alloc_cases (fits : bm.Fits s.count) :
    ((∀ t, t < bm.capacity → bm.bit s.blocks t = true) ∧ bm.alloc.run s = (kFailId, s)) ∨
    ∃ a, a < bm.capacity ∧ bm.bit s.blocks a = false ∧
      bm.alloc.run s = ((bm.dataSegmentOffset + a) % 4294967296, bm.mark s a) := by
  cases free : bm.freeBits s.blocks with
  | nil =>
    left
    refine ⟨fun t inside => ?_, run_alloc_nil fits free⟩
    by_contra clear
    have member : t ∈ bm.freeBits s.blocks := mem_freeBits.mpr ⟨inside, by simpa using clear⟩
    rw [free] at member
    cases member
  | cons a rest =>
    have member : a ∈ bm.freeBits s.blocks := free ▸ List.mem_cons_self
    obtain ⟨inside, clear⟩ := mem_freeBits.mp member
    exact .inr ⟨a, inside, clear, run_alloc_cons fits free⟩

theorem touches_alloc (fits : bm.Fits s.count) : Touches bm.Holds s (bm.alloc.run s).2 := by
  cases run_alloc_cases fits with
  | inl full =>
    rw [full.2]
    exact .refl _ _
  | inr taken =>
    obtain ⟨a, inside, -, run⟩ := taken
    rw [run]
    exact touches_mark inside

/-- After an allocation a single bit is set only if none was set before. -/
theorem noBit_of_onlyBit (fits : bm.Fits s.count) (big : 2 ≤ bm.capacity) {i : Nat} {D : Nat → Block}
    (same : ∀ b, bm.Holds b → D b = (bm.alloc.run s).2.blocks b) (only : OnlyBit bm D i) :
    NoBit bm s.blocks := by
  have bits : ∀ j, j < bm.capacity → (bm.bit (bm.alloc.run s).2.blocks j = true ↔ j = i) := by
    intro j inside
    rw [← only.2 j inside, bit_congr same inside]
  cases run_alloc_cases fits with
  | inl full =>
    -- bits 0 and 1 are set, so both are bit `i`
    rw [full.2] at bits
    have zero := (bits 0 (by omega)).mp (full.1 0 (by omega))
    have one := (bits 1 (by omega)).mp (full.1 1 (by omega))
    omega
  | inr taken =>
    obtain ⟨a, inside, clear, run⟩ := taken
    rw [run] at bits
    have here := (bits a inside).mp (by rw [bit_mark fits inside]; simp)
    intro j inside'
    by_contra set
    have there := (bits j inside').mp (by
      rw [bit_mark fits inside]
      simpa using Or.inr set)
    rw [here, ← there] at clear
    exact set clear

/-- The first allocation in an empty bitmap. -/
theorem run_alloc_first (fits : bm.Fits s.count) (some : 0 < bm.capacity) (none : NoBit bm s.blocks) :
    bm.alloc.run s = (bm.dataSegmentOffset % 4294967296, bm.mark s 0) ∧
      OnlyBit bm (bm.mark s 0).blocks 0 := by
  refine ⟨run_alloc_some fits some (none 0 some) fun t below => absurd below (Nat.not_lt_zero t), some, ?_⟩
  intro j inside
  rw [bit_mark fits some, none j inside]
  simp

end Bitmap

section

variable {s : Disk}

theorem writeInode_touches (pos : Position) (d : DiskInode) :
    Touches (· = pos.blockId) s ((writeInode pos d).run s).2 := by
  by_cases onDevice : pos.blockId < s.count
  · rw [run_writeInode d onDevice]
    exact .put _ _ rfl
  · rw [writeInode, DevProg.run_bind, DevProg.run_readBlk_of_ge (by omega)]
    exact .refl _ _

/-- The record that `createRoot` writes when the directory has block `rootDataId`. -/
structure RootRecord (d : DiskInode) (rootDataId : Nat) : Prop where
  type : d.type = kDirectory
  size : d.size = 512
  linkCnt : d.linkCnt = 1
  first : rootDataId < 4294967296 → d.directAt 0 = rootDataId
  one : d.indirect1 = 0
  two : d.indirect2 = 0

/-- What `createRoot` does after the two allocations. -/
theorem run_createRoot (fs : SBFileSystem) (uid gid : UInt16) {id did : Nat} {s₁ s₂ : Disk}
    (inode : fs.allocInode.run s = (id, s₁)) (block : fs.allocData.run s₁ = (did, s₂)) :
    ∃ d s₃, RootRecord d did ∧ Touches (fun _ => False) s₂ s₃ ∧ (fs.createRoot uid gid).run s =
        (fs.setRoot (fs.getDiskInodePos id),
          (((writeInode (fs.getDiskInodePos id) d).run s₃).2.put did (rootDirBlock id)).put 0
            (fs.setRoot (fs.getDiskInodePos id)).superBlock.toBlock) := by
  obtain ⟨d₀, s₃, type, linkCnt, one, two, quiet, run⟩ : ∃ (d₀ : DiskInode) (s₃ : Disk), d₀.type = kDirectory ∧
      d₀.linkCnt = 1 ∧ d₀.indirect1 = 0 ∧ d₀.indirect2 = 0 ∧
      Touches (fun _ => False) s₂ s₃ ∧ (DiskInode.new kDirectory uid gid).run s₂ = (d₀, s₃) :=
    ⟨_, _, rfl, rfl, rfl, rfl, .trans (.tick _ _) (.trans (.tick _ _) (.tick _ _)), rfl⟩
  refine ⟨DiskInode.setDirect { d₀ with size := 512, mode := d₀.mode ||| 493 } 0 did, s₃,
    ⟨type, rfl, linkCnt, fun small => ?_, one, two⟩, quiet, ?_⟩
  · rw [DiskInode.directAt_setDirect (by decide) small, if_pos rfl]
  · simp only [SBFileSystem.createRoot, DevProg.run_bind, inode, block, run, DevProg.run_writeBlk,
      DevProg.run_pure]

end

namespace Layout

variable (L : Layout)

theorem inodeBitmap_eq : L.formatted.inodeBitmap = ⟨1, L.inodeBitmapBlocks, L.inodeAreaStart⟩ := by
  rw [L.formatted_eq]

theorem inode_capacity : L.formatted.inodeBitmap.capacity = L.inodeBitmapBlocks * 32768 := by
  rw [inodeBitmap_eq, Bitmap.capacity]

theorem data_capacity : L.formatted.dataBitmap.capacity = L.dataBitmapBlocks * 32768 := by
  rw [dataBitmap_eq, Bitmap.capacity]

theorem bitmaps_apart {b : Nat} (holds : L.formatted.inodeBitmap.Holds b) :
    ¬ L.formatted.dataBitmap.Holds b := by
  rw [inodeBitmap_eq, Bitmap.Holds] at holds
  rw [dataBitmap_eq, Bitmap.Holds]
  simp only [dataBitmapStart] at *
  omega

theorem inodeBitmap_fits {count : Nat} (device : L.totalBlocks ≤ count) :
    L.formatted.inodeBitmap.Fits count := by
  have := L.someData
  have := L.total32
  rw [inodeBitmap_eq]
  constructor <;> simp only <;> omega

theorem dataBitmap_fits {count : Nat} (device : L.totalBlocks ≤ count) :
    L.formatted.dataBitmap.Fits count := by
  have room := L.someData
  have := L.total32
  have blocks : L.dataBitmapBlocks * 32769 ≤ L.totalBlocks - 1025 * L.inodeBitmapBlocks :=
    Nat.div_mul_le_self _ _
  rw [dataBitmap_eq]
  constructor <;> simp only [dataBitmapStart] <;> omega

/-- What `createRoot` writes after the allocations lies outside the inode bitmap, and, when
the root has a slot in the inode area, outside the data bitmap. -/
theorem createRoot_outside {id did b : Nat} (id32 : id < 4294967296)
    (did_high : L.dataAreaStart ≤ did)
    (written : b = (L.formatted.getDiskInodePos id).blockId ∨ b = did ∨ b = 0) :
    ¬ L.formatted.inodeBitmap.Holds b ∧ (L.SlotId id → ¬ L.formatted.dataBitmap.Holds b) := by
  have := L.someData
  have := L.total32
  have place : (L.formatted.getDiskInodePos id).blockId = L.inodeAreaStart + id / 32 := by
    rw [SBFileSystem.getDiskInodePos, L.formatted_eq]
    simp only [inodeAreaStart]
    omega
  simp only [place, dataAreaStart, dataBitmapStart, inodeAreaStart] at *
  rw [inodeBitmap_eq, dataBitmap_eq]
  simp only [Bitmap.Holds, dataBitmapStart, SlotId]
  omega

end Layout

section

variable {L : Layout} {s : Disk} {uid gid : UInt16}

/-- `create` writes the super block and then creates the root. -/
theorem run_create (L : Layout) (uid gid : UInt16) (s : Disk) :
    (SBFileSystem.create L.totalBlocks L.inodeBitmapBlocks uid gid).run s =
      (L.formatted.createRoot uid gid).run
        (s.put 0 (SuperBlock.format L.totalBlocks L.inodeBitmapBlocks).toBlock) := by
  rw [SBFileSystem.create, DevProg.run_bind, DevProg.run_writeBlk]
  rfl

/-- The super block lies in neither bitmap. -/
theorem noBit_put_zero {bm : Bitmap} (start : 1 ≤ bm.startBlockId) (blk : Block) :
    NoBit bm (s.put 0 blk).blocks ↔ NoBit bm s.blocks := by
  have same : ∀ b, bm.Holds b → (s.put 0 blk).blocks b = s.blocks b := by
    intro b holds
    have := holds.1
    rw [Store.put_blocks_ne _ _ (by omega)]
  constructor
  · intro none i inside
    rw [← none i inside, Bitmap.bit_congr same inside]
  · intro none i inside
    rw [Bitmap.bit_congr same inside, none i inside]

theorem alloc_id_lt (bm : Bitmap) : (bm.alloc.run s).1 < 4294967296 := by
  cases bm.run_alloc_mem s with
  | inl failed =>
    rw [failed]
    decide
  | inr returned =>
    obtain ⟨a, -, value⟩ := returned
    rw [value]
    exact Nat.mod_lt _ (by decide)

/-- A data block id, or `kFail`, is past everything but the data area. -/
theorem allocData_high : L.dataAreaStart ≤ (L.formatted.allocData.run s).1 := by
  by_cases failed : (L.formatted.allocData.run s).1 = kFailId
  · have := L.areaEnd_lt
    rw [Layout.areaEnd] at this
    rw [failed]
    simp only [kFailId]
    omega
  · exact (L.alloc_formatted s failed).1

/-- The slot that the first allocation of an inode leads to. -/
theorem rootSlot (L : Layout) : L.SlotId L.inodeAreaStart := by
  have := L.someInodes
  have := L.someData
  have := L.total32
  rw [Layout.SlotId, Layout.inodeAreaStart]
  omega

theorem allocInode_first (device : L.totalBlocks ≤ s.count) (none : NoBit L.formatted.inodeBitmap s.blocks) :
    L.formatted.allocInode.run s = (L.inodeAreaStart, L.formatted.inodeBitmap.mark s 0) ∧
      OnlyBit L.formatted.inodeBitmap (L.formatted.inodeBitmap.mark s 0).blocks 0 := by
  have := L.someInodes
  have capacity := L.inode_capacity
  obtain ⟨run, only⟩ := Bitmap.run_alloc_first (L.inodeBitmap_fits device) (by omega) none
  have offset : L.formatted.inodeBitmap.dataSegmentOffset = L.inodeAreaStart := by rw [L.inodeBitmap_eq]
  rw [offset, Nat.mod_eq_of_lt (rootSlot L).2] at run
  exact ⟨run, only⟩

theorem allocData_first (device : L.totalBlocks ≤ s.count) (none : NoBit L.formatted.dataBitmap s.blocks) :
    L.formatted.allocData.run s = (L.dataAreaStart, L.formatted.dataBitmap.mark s 0) ∧
      OnlyBit L.formatted.dataBitmap (L.formatted.dataBitmap.mark s 0).blocks 0 := by
  have room := L.dataBitmap_pos
  have small := L.areaEnd_lt
  have capacity := L.data_capacity
  obtain ⟨run, only⟩ := Bitmap.run_alloc_first (L.dataBitmap_fits device) (by omega) none
  have offset : L.formatted.dataBitmap.dataSegmentOffset = L.dataAreaStart := by rw [L.dataBitmap_eq]
  rw [Layout.areaEnd] at small
  rw [offset, Nat.mod_eq_of_lt (by omega)] at run
  exact ⟨run, only⟩

/-- A clean slate comes from empty bitmaps only: nothing clears a bit. -/
theorem noBit_of_clean (device : L.totalBlocks ≤ s.count)
    (clean : CleanSlate ((L.formatted.createRoot uid gid).run s).1 ((L.formatted.createRoot uid gid).run s).2) :
    NoBit L.formatted.inodeBitmap s.blocks ∧ NoBit L.formatted.dataBitmap s.blocks := by
  have inodes := L.someInodes
  have datas := L.dataBitmap_pos
  have inodeCapacity := L.inode_capacity
  have dataCapacity := L.data_capacity
  obtain ⟨id, s₁, inode⟩ : ∃ id s₁, L.formatted.allocInode.run s = (id, s₁) := ⟨_, _, rfl⟩
  obtain ⟨did, s₂, block⟩ : ∃ did s₂, L.formatted.allocData.run s₁ = (did, s₂) := ⟨_, _, rfl⟩
  have count₁ : s₁.count = s.count := by
    have := run_count L.formatted.allocInode s
    rwa [inode] at this
  have id32 : id < 4294967296 := by
    have := alloc_id_lt (s := s) L.formatted.inodeBitmap
    rwa [← SBFileSystem.allocInode, inode] at this
  have high : L.dataAreaStart ≤ did := by
    have := allocData_high (L := L) (s := s₁)
    rwa [block] at this
  obtain ⟨d, s₃, -, quiet, run⟩ := run_createRoot L.formatted uid gid inode block
  rw [run] at clean
  generalize hs : ((((writeInode (L.formatted.getDiskInodePos id) d).run s₃).2.put did
    (rootDirBlock id)).put 0 _) = s' at clean
  -- after the allocations only these blocks change
  have tail : Touches (fun b => b = (L.formatted.getDiskInodePos id).blockId ∨ b = did ∨ b = 0) s₂ s' := by
    rw [← hs]
    refine (quiet.mono fun _ => False.elim).trans (.trans ((writeInode_touches _ d).mono fun b => .inl) ?_)
    exact .trans (.put _ _ (.inr (.inl rfl))) (.put _ _ (.inr (.inr rfl)))
  obtain ⟨i, onlyInode, -⟩ := clean.inodeBit
  obtain ⟨j, onlyData, -⟩ := clean.dataBit
  have noInode : NoBit L.formatted.inodeBitmap s.blocks := by
    refine Bitmap.noBit_of_onlyBit (L.inodeBitmap_fits device) (by omega) (fun b holds => ?_) onlyInode
    · have alloc := (Bitmap.touches_alloc (L.dataBitmap_fits (count₁ ▸ device))).blocks b (L.bitmaps_apart holds)
      rw [← SBFileSystem.allocData, block] at alloc
      have same := tail.blocks b fun written => (L.createRoot_outside id32 high written).1 holds
      rw [same, alloc, ← SBFileSystem.allocInode, inode]
  refine ⟨noInode, ?_⟩
  -- so the root has the first slot, and its inode does not go into the data bitmap
  have first : id = L.inodeAreaStart := by
    have := (allocInode_first device noInode).1
    rw [inode, Prod.mk.injEq] at this
    exact this.1
  have mark : s₁ = L.formatted.inodeBitmap.mark s 0 := by
    have := (allocInode_first device noInode).1
    rw [inode, Prod.mk.injEq] at this
    exact this.2
  have noData : NoBit L.formatted.dataBitmap s₁.blocks := by
    refine Bitmap.noBit_of_onlyBit (L.dataBitmap_fits (count₁ ▸ device)) (by omega) (fun b holds => ?_) onlyData
    · have same := tail.blocks b fun written =>
        (L.createRoot_outside id32 high written).2 (first ▸ rootSlot L) holds
      rw [same, ← SBFileSystem.allocData, block]
  intro i inside
  rw [← noData i inside]
  refine (Bitmap.bit_congr (fun b holds => ?_) inside).symm
  have alloc := (Bitmap.touches_alloc (L.inodeBitmap_fits device)).blocks b fun both =>
    L.bitmaps_apart both holds
  rwa [← SBFileSystem.allocInode, inode] at alloc

theorem OnlyBit.congr {bm : Bitmap} {D D' : Nat → Block} {i : Nat} (only : OnlyBit bm D i)
    (same : ∀ b, bm.Holds b → D' b = D b) : OnlyBit bm D' i :=
  ⟨only.1, fun j inside => by rw [Bitmap.bit_congr same inside, only.2 j inside]⟩

theorem NoBit.congr {bm : Bitmap} {D D' : Nat → Block} (none : NoBit bm D)
    (same : ∀ b, bm.Holds b → D' b = D b) : NoBit bm D' := fun i inside => by
  rw [Bitmap.bit_congr same inside, none i inside]

/-- The first three regions, the first data block and the block of the root's inode follow
each other. -/
theorem rootSlot_between (L : Layout) : 0 < (L.slot L.inodeAreaStart).blockId ∧
    (L.slot L.inodeAreaStart).blockId < L.dataAreaStart ∧ L.dataAreaStart < L.totalBlocks := by
  have inodes := L.someInodes
  have room := L.someData
  have some := L.dataBitmap_pos
  have datas : L.dataBitmapBlocks * 32769 ≤ L.totalBlocks - 1025 * L.inodeBitmapBlocks :=
    Nat.div_mul_le_self _ _
  rw [Layout.slot_eq (rootSlot L)]
  simp only [Layout.inodeAreaStart, Layout.dataAreaStart, Layout.dataBitmapStart]
  omega

/-- The entries of the root's first block. -/
theorem entries_rootDirBlock {d : DiskInode} {D : Nat → Block} {id : Nat} (size : d.size.toNat = 512)
    (small : id < 4294967296) (block : D (d.directAt 0) = rootDirBlock id) :
    d.entries D = [([46], id), ([46, 46], id)] := by
  have bytes : ∀ p, p < 512 → d.byte D p = Inode.dotEntries id id p := by
    intro p inside
    have first : d.ids D (p / 4096) = d.directAt 0 := by
      rw [show p / 4096 = 0 by omega]
      rfl
    rw [DiskInode.byte, byteAt, first, block, rootDirBlock, Bytes.get_ofMem_of_lt _ (by omega),
      Nat.mod_eq_of_lt (by omega), if_pos inside]
  have dot : entryAt (d.byte D) 0 = ([46], id) := by
    refine entryAt_dirEntry (by simp) (by simp) small fun p inside => ?_
    rw [bytes _ (by omega), Inode.dotEntries, if_pos (by omega), Nat.mul_zero, Nat.zero_add]
  have dots : entryAt (d.byte D) 1 = ([46, 46], id) := by
    refine entryAt_dirEntry (by simp) (by simp) small fun p inside => ?_
    rw [bytes _ (by omega), Inode.dotEntries, if_neg (by omega), Nat.mul_one, Nat.add_sub_cancel_left]
  rw [DiskInode.entries, size]
  exact congrArg₂ (fun e e' => [e, e']) dot dots

/-- A disk on which everything but the root is free. -/
structure FreshRoot (L : Layout) (s : Disk) : Prop where
  inodeBit : OnlyBit L.formatted.inodeBitmap s.blocks 0
  dataBit : OnlyBit L.formatted.dataBitmap s.blocks 0
  record : RootRecord (L.inode s.blocks L.inodeAreaStart) L.dataAreaStart
  block : s.blocks L.dataAreaStart = rootDirBlock L.inodeAreaStart
  superBlock : s.blocks 0 = (L.formatted.setRoot (L.slot L.inodeAreaStart)).superBlock.toBlock

theorem FreshRoot.entries (fresh : FreshRoot L s) : (L.inode s.blocks L.inodeAreaStart).entries s.blocks =
    [([46], L.inodeAreaStart), ([46, 46], L.inodeAreaStart)] := by
  have small : L.dataAreaStart < 4294967296 := by
    have := L.total32
    have := rootSlot_between L
    omega
  refine entries_rootDirBlock (by rw [fresh.record.size]; rfl) (rootSlot L).2 ?_
  rw [fresh.record.first small, fresh.block]

/-- From empty bitmaps `createRoot` makes the root and nothing else. -/
theorem run_createRoot_fresh (device : L.totalBlocks ≤ s.count) (noInode : NoBit L.formatted.inodeBitmap s.blocks)
    (noData : NoBit L.formatted.dataBitmap s.blocks) :
    ∃ s', (L.formatted.createRoot uid gid).run s = (L.formatted.setRoot (L.slot L.inodeAreaStart), s') ∧
      s'.count = s.count ∧ FreshRoot L s' := by
  have slotId := rootSlot L
  obtain ⟨posHigh, posLow, didLow⟩ := rootSlot_between L
  -- the allocations
  obtain ⟨inode, onlyInode⟩ := allocInode_first device noInode
  have touched₁ := Bitmap.touches_alloc (L.inodeBitmap_fits device)
  rw [← SBFileSystem.allocInode, inode] at touched₁
  generalize L.formatted.inodeBitmap.mark s 0 = s₁ at inode onlyInode touched₁
  have device₁ : L.totalBlocks ≤ s₁.count := touched₁.count ▸ device
  obtain ⟨block, onlyData⟩ := allocData_first device₁ (noData.congr fun b holds =>
    touched₁.blocks b fun both => L.bitmaps_apart both holds)
  have touched₂ := Bitmap.touches_alloc (L.dataBitmap_fits device₁)
  rw [← SBFileSystem.allocData, block] at touched₂
  generalize L.formatted.dataBitmap.mark s₁ 0 = s₂ at block onlyData touched₂
  obtain ⟨d, s₃, record, quiet, run⟩ := run_createRoot L.formatted uid gid inode block
  have count₃ : s₃.count = s.count := by rw [quiet.count, touched₂.count, touched₁.count]
  have place : L.formatted.getDiskInodePos L.inodeAreaStart = L.slot L.inodeAreaStart := rfl
  rw [place, run_writeInode d (show (L.slot L.inodeAreaStart).blockId < s₃.count by omega)] at run
  -- the three writes go to different blocks
  generalize hs : (Store.put (Store.put (Store.put _ _ _) _ _) 0 _) = s' at run
  have others : ∀ b, b ≠ 0 → b ≠ L.dataAreaStart → b ≠ (L.slot L.inodeAreaStart).blockId →
      s'.blocks b = s₂.blocks b := by
    intro b ne₀ ne₁ ne₂
    rw [← hs, Store.put_blocks_ne _ _ ne₀, Store.put_blocks_ne _ _ ne₁, Store.put_blocks_ne _ _ ne₂,
      quiet.quiet]
  have outside := fun b written => L.createRoot_outside (b := b) slotId.2 (Nat.le_refl L.dataAreaStart) written
  refine ⟨s', run, by rw [← hs]; exact count₃, ?_⟩
  constructor
  case inodeBit =>
    refine onlyInode.congr fun b holds => ?_
    rw [others b (fun is => (outside b (.inr (.inr is))).1 holds)
      (fun is => (outside b (.inr (.inl is))).1 holds) (fun is => (outside b (.inl is)).1 holds)]
    exact touched₂.blocks b (L.bitmaps_apart holds)
  case dataBit =>
    refine onlyData.congr fun b holds => ?_
    exact others b (fun is => (outside b (.inr (.inr is))).2 slotId holds)
      (fun is => (outside b (.inr (.inl is))).2 slotId holds) (fun is => (outside b (.inl is)).2 slotId holds)
  case record =>
    have saved : s'.blocks (L.slot L.inodeAreaStart).blockId =
        putInode (s₃.blocks (L.slot L.inodeAreaStart).blockId) (L.slot L.inodeAreaStart).blockOffset d := by
      rw [← hs, Store.put_blocks_ne _ _ (by omega), Store.put_blocks_ne _ _ (by omega),
        Store.put_blocks_same _ _ (show (L.slot L.inodeAreaStart).blockId < s₃.count by omega)]
    rw [Layout.inode, saved, inodeIn_putInode _ _ (Layout.slot_inside slotId).inBlock]
    exact record
  case block =>
    rw [← hs, Store.put_blocks_ne _ _ (by omega)]
    exact Store.put_blocks_same _ _ (show L.dataAreaStart < s₃.count by omega)
  case superBlock =>
    rw [← hs]
    exact Store.put_blocks_same _ _ (show 0 < s₃.count by omega)

/-- From empty bitmaps `createRoot` makes a clean slate. -/
theorem clean_of_noBit (device : L.totalBlocks ≤ s.count)
    (noInode : NoBit L.formatted.inodeBitmap s.blocks) (noData : NoBit L.formatted.dataBitmap s.blocks) :
    CleanSlate ((L.formatted.createRoot uid gid).run s).1 ((L.formatted.createRoot uid gid).run s).2 := by
  obtain ⟨s', run, -, fresh⟩ : ∃ s', (L.formatted.createRoot uid gid).run s =
      (L.formatted.setRoot (L.slot L.inodeAreaStart), s') ∧ s'.count = s.count ∧ FreshRoot L s' :=
    run_createRoot_fresh device noInode noData
  obtain ⟨-, -, didLow⟩ := rootSlot_between L
  have small : L.dataAreaStart < 4294967296 := by
    have := L.total32
    omega
  have rootId : (L.formatted.setRoot (L.slot L.inodeAreaStart)).rootId = L.inodeAreaStart :=
    Layout.diskInodeId_slot (rootSlot L)
  have root : (L.formatted.setRoot (L.slot L.inodeAreaStart)).rootInode s'.blocks =
    L.inode s'.blocks L.inodeAreaStart := rfl
  rw [run]
  constructor
  case inodeBit =>
    have offset : L.formatted.inodeBitmap.dataSegmentOffset = L.inodeAreaStart := by rw [L.inodeBitmap_eq]
    exact ⟨0, fresh.inodeBit, rootId.trans offset.symm⟩
  case dataBit =>
    have offset : L.formatted.dataBitmap.dataSegmentOffset = L.dataAreaStart := by rw [L.dataBitmap_eq]
    refine ⟨0, fresh.dataBit, ?_⟩
    rw [root, fresh.record.first small]
    exact offset.symm
  case type => rw [root, fresh.record.type]
  case size => rw [root, fresh.record.size]; rfl
  case entries => rw [root, rootId, fresh.entries]

end

/-- Formatting gives a clean slate exactly when both bitmaps were empty on the backing file. -/
theorem create_clean_iff (L : Layout) (uid gid : UInt16) {s : Disk} (device : L.totalBlocks ≤ s.count) :
    let r := (SBFileSystem.create L.totalBlocks L.inodeBitmapBlocks uid gid).run s
    CleanSlate r.1 r.2 ↔
      NoBit L.formatted.inodeBitmap s.blocks ∧ NoBit L.formatted.dataBitmap s.blocks := by
  have inodeStart : 1 ≤ L.formatted.inodeBitmap.startBlockId := by rw [L.inodeBitmap_eq]
  have dataStart : 1 ≤ L.formatted.dataBitmap.startBlockId := by
    rw [L.dataBitmap_eq]
    simp only [Layout.dataBitmapStart]
    omega
  have put : ∀ blk, L.totalBlocks ≤ (s.put 0 blk).count := fun _ => device
  simp only [run_create]
  rw [← noBit_put_zero inodeStart, ← noBit_put_zero dataStart]
  constructor
  · intro clean
    exact noBit_of_clean (put _) clean
  · rintro ⟨noInode, noData⟩
    exact clean_of_noBit (put _) noInode noData

/-! ### A used image -/

/-- A backing file with one byte set in the first block of the inode bitmap. -/
def usedImage : Disk where
  count := 4194304
  blocks b := fun i => if b = 1 ∧ i.val = 0 then 1 else 0
  writes := []
  clock _ := 0
  syncs _ := true

/-- A backing file of zeros. -/
def blankImage : Disk where
  count := 4194304
  blocks _ := Bytes.zero
  writes := []
  clock _ := 0
  syncs _ := true

theorem blankImage_noBit (bm : Bitmap) : NoBit bm blankImage.blocks := by
  intro i _
  simp [Bitmap.bit, blankImage, Bytes.bit]

theorem create_clean_iff_blankImage :
    let r := (SBFileSystem.create 4194304 1 0 0).run blankImage
    CleanSlate r.1 r.2 :=
  (create_clean_iff .default 0 0 (s := blankImage) (Nat.le_refl 4194304)).mpr
    ⟨blankImage_noBit _, blankImage_noBit _⟩

/-- On the used image the bit that was set stays set. -/
theorem usedImage_not_clean :
    ¬ ∀ (L : Layout) (uid gid : UInt16) (s : Disk), L.totalBlocks ≤ s.count →
      CleanSlate ((SBFileSystem.create L.totalBlocks L.inodeBitmapBlocks uid gid).run s).1
        ((SBFileSystem.create L.totalBlocks L.inodeBitmapBlocks uid gid).run s).2 := by
  intro always
  have clean := always .default 0 0 usedImage (Nat.le_refl 4194304)
  rw [run_create] at clean
  have none := (noBit_put_zero (by rw [Layout.inodeBitmap_eq]) _).mp
    (noBit_of_clean (s := usedImage.put 0 _) (Nat.le_refl 4194304) clean).1 0
    (by rw [Layout.inode_capacity]; decide)
  rw [Layout.inodeBitmap_eq] at none
  exact absurd none (by decide)

end Sbfs
