import Sbfs.Inode
import Mathlib.Tactic.IntervalCases

/-! # What resizing may touch, and what an inode owns

The two contracts of `resize`: the blocks that it writes (`resize_frame_iff`), and the
blocks that an inode owns after any history of resizes (`resize_history`). -/

namespace Sbfs

open Slot

namespace Layout

variable (L : Layout)

@[simp] theorem dataBitmap_eq :
    L.formatted.dataBitmap = ⟨L.dataBitmapStart, L.dataBitmapBlocks, L.dataAreaStart⟩ := by
  rw [L.formatted_eq]

/-- On a device that has the whole data area the data bitmap satisfies all that the
allocator needs. -/
theorem segment {count : Nat} (device : L.areaEnd ≤ count) :
    L.formatted.dataBitmap.Segment count := by
  have finish := L.areaEnd_lt
  have some := L.someInodes
  rw [dataBitmap_eq]
  simp only [areaEnd, dataAreaStart, dataBitmapStart] at *
  constructor
  case toFits => constructor <;> simp only <;> omega
  case high => simp only; omega
  case after => exact Nat.le_refl _
  case area => simp only [Bitmap.capacity]; omega
  case ids32 => simp only [Bitmap.capacity]; omega

theorem slot_below {pos : Position} (slot : SlotInside L.formatted pos) :
    pos.blockId < L.formatted.dataBitmap.startBlockId := by
  have upper := slot.upper
  rw [L.formatted_eq] at *
  simp only [inodeAreaStart, dataBitmapStart] at *
  omega

end Layout

section

variable {bm : Bitmap} {d d' : DiskInode} {s s' : Disk} {newSize : Nat}

/-- `block_id` finds the blocks that the map has. -/
theorem run_blockId {V : Slot → Prop} (map : BlockMap bm d s.blocks V) (segment : bm.Segment s.count)
    {k : Nat} (valid : V (data k)) (small : k < 1048576) :
    (d.blockId k).run s = (d.slotId s.blocks (data k), s) := by
  have bound : ∀ x, V x → d.slotId s.blocks x < s.count := fun x validX =>
    (segment.bound (map.used x validX).1).2.1
  simp only [DiskInode.blockId, DiskInode.slotId]
  rw [if_neg (by omega)]
  by_cases direct : k < 23
  · rw [if_pos direct, if_pos direct, DevProg.run_pure]
  · rw [if_neg direct, if_neg direct]
    by_cases level : k < 1047
    · have parent : V ind1 := by
        refine map.closed (data k) ind1 ?_ valid
        simp only [parent, direct, level, if_false, if_true]
      have onDevice := bound ind1 parent
      simp only [DiskInode.slotId] at onDevice
      rw [if_pos (by omega), if_pos level]
      simp only [DevProg.run_bind, DevProg.run_readBlk_of_lt onDevice, DevProg.run_pure]
    · have parent : V (second ((k - 1047) / 1024)) := by
        refine map.closed (data k) _ ?_ valid
        simp only [Slot.parent, direct, level, if_false]
      have onDevice := bound ind2 (map.closed _ ind2 rfl parent)
      have onDevice₂ := bound _ parent
      simp only [DiskInode.slotId] at onDevice onDevice₂
      rw [if_neg (by omega), if_neg level]
      simp only [DevProg.run_bind, DevProg.run_readBlk_of_lt onDevice,
        DevProg.run_readBlk_of_lt onDevice₂, DevProg.run_pure]

/-! ## Frame -/

theorem own_below {pos : Position} {inode : Option Position} (own : inode = none ∨ inode = some pos)
    (low : pos.blockId < bm.startBlockId) (pos' : Position) (some : inode = some pos') :
    pos'.blockId < bm.startBlockId := by
  obtain rfl | rfl := own
  · cases some
  · cases some
    exact low

/-- The blocks that resizing the inode at `pos` is entitled to write: the data bitmap, the
index blocks that the inode has before or after, and the block of the inode itself. -/
def OwnWrites (bm : Bitmap) (pos : Position) (d : DiskInode) (s : Disk) (d' : DiskInode) (s' : Disk)
    (b : Nat) : Prop :=
  bm.Holds b ∨ d.IndexBlock s.blocks b ∨ d'.IndexBlock s'.blocks b ∨ b = pos.blockId

theorem Resized.ownWrites_iff {inode : Option Position} {pos : Position}
    (resized : Resized bm newSize inode d s d' s') (segment : bm.Segment s.count)
    (map : WellMapped bm d s.blocks) (own : inode = none ∨ inode = some pos) :
    Touches (OwnWrites bm pos d s d' s') s s' ↔
      ¬ Strays d newSize ∨ pos.blockId = strayTarget newSize := by
  constructor
  · intro touches
    by_cases strays : Strays d newSize
    · right
      have low : strayTarget newSize < 1024 := by
        have := dataBlocks_le d.size.toNat_lt
        have := strays.2
        rw [strayTarget]
        omega
      obtain holds | ⟨x, -, owns, same⟩ | ⟨x, -, owns, same⟩ | same :=
        (resized.stray strays).allowed touches
      · have := holds.1
        have := segment.high
        omega
      · have := segment.bound (map.used x owns).1
        omega
      · have := (resized.touches.count ▸ segment).bound (resized.map.used x owns).1
        omega
      · exact same.symm
    · exact .inl strays
  · intro allowed
    refine resized.touches.mono ?_
    rintro b (holds | index | ⟨pos', some, rfl⟩ | ⟨strays, rfl⟩)
    · exact .inl holds
    · exact .inr (.inr (.inl index))
    · obtain none | own := own
      · rw [none] at some
        cases some
      · rw [own] at some
        cases some
        exact .inr (.inr (.inr rfl))
    · exact .inr (.inr (.inr (allowed.resolve_left (not_not_intro strays)).symm))

/-- `Inode::resize` on a file: the block map is resized and the inode is on the device. -/
theorem run_inodeResize {fs : SBFileSystem} {pos : Position}
    (here : inodeIn (s.blocks pos.blockId) pos.blockOffset = d) (file : d.type = kFile)
    (map : WellMapped fs.dataBitmap d s.blocks) (segment : fs.dataBitmap.Segment s.count)
    (size32 : newSize < 4294967296)
    (enough : growth d newSize ≤ (fs.dataBitmap.freeIds s.blocks).length)
    (low : pos.blockId < fs.dataBitmap.startBlockId) :
    ∃ d' s', (Inode.resize fs pos newSize).run s = (.kSuccess, s') ∧
      Resized fs.dataBitmap newSize (some pos) d s d' s' ∧
      ∃ base, s'.blocks pos.blockId = putInode base pos.blockOffset d' ∧
        ((Strays d newSize → pos.blockId ≠ strayTarget newSize) → base = s.blocks pos.blockId) := by
  have onDevice : pos.blockId < s.count := by
    have := segment.onDevice
    omega
  have read : (readInode pos).run s = (some d, s) := by
    simp only [readInode, DevProg.run_bind, DevProg.run_readBlk_of_lt onDevice, DevProg.run_pure, here]
  have notOther : ¬ d.type ≠ kFile := not_not_intro file
  by_cases grow : d.size.toNat < newSize
  · have below : ∀ p, (none : Option Position) = some p → p.blockId < fs.dataBitmap.startBlockId :=
      fun p none => by cases none
    obtain ⟨d', s₁, run, resized⟩ := run_resize map segment size32 enough below
    have onDevice₁ : pos.blockId < s₁.count := resized.touches.count ▸ onDevice
    obtain ⟨saved, old⟩ := resized.save (resized.touches.count ▸ segment) low
      (Nat.le_of_lt grow)
    refine ⟨d', _, ?_, saved, s₁.blocks pos.blockId, Store.put_blocks_same _ _ onDevice₁, fun _ => old⟩
    simp only [Inode.resize, DevProg.run_bind, read, notOther, if_false, grow, if_true, run,
      run_writeInode d' onDevice₁]
  · have below : ∀ p, some pos = some p → p.blockId < fs.dataBitmap.startBlockId := by
      intro p some
      cases some
      exact low
    obtain ⟨d', s', run, resized⟩ := run_resize map segment size32 enough below
    have shrink : dataBlocks newSize ≤ dataBlocks d.size.toNat := by
      simp only [dataBlocks]
      omega
    refine ⟨d', s', ?_, resized, resized.inode shrink pos rfl⟩
    simp only [Inode.resize, DevProg.run_bind, read, notOther, if_false, grow, run, DevProg.run_pure]

end

/-- Resizing writes no foreign block exactly when no group under `indirect2` survives a
shrink, or the inode lies in the very block that the stray write hits. -/
theorem resize_frame_iff (L : Layout) {pos : Position} (slot : SlotInside L.formatted pos) {s : Disk}
    (io : L.areaEnd ≤ s.count) {d : DiskInode}
    (map : WellMapped L.formatted.dataBitmap d s.blocks) {newSize : Nat}
    (size32 : newSize < 4294967296)
    (enough : growth d newSize ≤ (L.formatted.dataBitmap.freeIds s.blocks).length) :
    (∀ inode, inode = none ∨ inode = some pos →
      let r := (d.resize newSize L.formatted.dataBitmap inode).run s
      Touches (OwnWrites L.formatted.dataBitmap pos d s r.1.2 r.2) s r.2 ↔
        ¬ Strays d newSize ∨ pos.blockId = strayTarget newSize) ∧
    (inodeIn (s.blocks pos.blockId) pos.blockOffset = d → d.type = kFile →
      let s' := ((Inode.resize L.formatted pos newSize).run s).2
      Touches (OwnWrites L.formatted.dataBitmap pos d s
          (inodeIn (s'.blocks pos.blockId) pos.blockOffset) s') s s' ↔
        ¬ Strays d newSize ∨ pos.blockId = strayTarget newSize) := by
  have segment := L.segment io
  have low := L.slot_below slot
  constructor
  · intro inode own
    obtain ⟨d', s', run, resized⟩ := run_resize map segment size32 enough (own_below own low)
    simp only [run]
    exact resized.ownWrites_iff segment map own
  · intro here file
    obtain ⟨d', s', run, resized, base, written, -⟩ :=
      run_inodeResize here file map segment size32 enough low
    have after : inodeIn (s'.blocks pos.blockId) pos.blockOffset = d' := by
      rw [written, inodeIn_putInode _ _ slot.inBlock]
    simp only [run, after]
    exact resized.ownWrites_iff segment map (.inr rfl)

/-! ### A file of 1049 blocks -/

/-- The index block with the entries `f`. -/
def indexBlock (f : Nat → Nat) : Block := Bytes.ofMem fun p => leByte (f (p / 4)) (p % 4)

theorem entry_indexBlock {f : Nat → Nat} {i : Nat} (inside : i < 1024) (small : f i < 4294967296) :
    entry (indexBlock f) i = f i := by
  have bytes : ∀ p, p < 4 → (indexBlock f).get (4 * i + p) = leByte (f i) p := by
    intro p bound
    rw [indexBlock, Bytes.get_ofMem_of_lt _ (by omega), show (4 * i + p) / 4 = i by omega,
      show (4 * i + p) % 4 = p by omega]
  rw [entry, Bytes.getLE, le_congr bytes, le_leByte, Nat.mod_eq_of_lt (show f i < 256 ^ 4 from small)]

/-- A file of 1049 blocks: its last two blocks lie under `indirect2`. -/
def deepFile : DiskInode where
  size := 4296704
  accessTime := 0
  changeTime := 0
  modifyTime := 0
  uid := 0
  gid := 0
  linkCnt := 1
  mode := 32768
  direct i := UInt32.ofNat (1153 + i)
  indirect1 := 3153
  indirect2 := 3154
  type := kFile

/-- The default layout with `deepFile` in slot 2 and the bits of its blocks set. -/
def deepDisk : Disk where
  count := 4194304
  blocks b :=
    if b = 2 then putInode Bytes.zero 256 deepFile
    else if b = 1026 then fun _ => 255
    else if b = 3153 then indexBlock fun i => 1176 + i
    else if b = 3154 then indexBlock fun i => 3155 + i
    else if b = 3155 then indexBlock fun i => 2200 + i
    else Bytes.zero
  writes := []
  clock _ := 0
  syncs _ := true

/-- The block of each slot of `deepFile`. -/
def deepId : Slot → Nat
  | data k => 1153 + k
  | ind1 => 3153
  | ind2 => 3154
  | second q => 3155 + q

theorem deepFile_blocks : dataBlocks deepFile.size.toNat = 1049 := by decide

theorem deepFile_slotId (x : Slot) (owns : deepFile.Owns x) :
    deepFile.slotId deepDisk.blocks x = deepId x := by
  have one : deepDisk.blocks deepFile.indirect1.toNat = indexBlock fun i => 1176 + i := rfl
  have two : deepDisk.blocks deepFile.indirect2.toNat = indexBlock fun i => 3155 + i := rfl
  have three : deepDisk.blocks 3155 = indexBlock fun i => 2200 + i := rfl
  rw [DiskInode.Owns, deepFile_blocks] at owns
  cases x with
  | data k =>
    simp only [Valid] at owns
    simp only [DiskInode.slotId, deepId, one, two]
    split
    · rename_i low
      simp [DiskInode.directAt, low, deepFile,
        Nat.mod_eq_of_lt (show 1153 + k < 4294967296 by omega)]
    · split
      · rw [entry_indexBlock (by omega) (by omega)]
        omega
      · have group : (k - 1047) / 1024 = 0 := by omega
        rw [group, entry_indexBlock (by omega) (by omega), three,
          entry_indexBlock (by omega) (by omega)]
        omega
  | ind1 => rfl
  | ind2 => rfl
  | second q =>
    simp only [Valid] at owns
    simp only [DiskInode.slotId, deepId, two]
    rw [entry_indexBlock (by omega) (by omega)]

theorem const_bit {fill : UInt8} {i : Nat} (inside : i < 32768) :
    Bytes.bit (fun _ => fill : Block) i = fill.toNat.testBit (i % 8) := by
  rw [Bytes.bit, Bytes.get, dif_pos (by omega)]

theorem testBit_ones {r : Nat} (bound : r < 8) : (255 : UInt8).toNat.testBit r = true := by
  interval_cases r <;> decide

/-- The bits of the first block of the data bitmap, when all of them are set. -/
theorem dataBit_ones {D : Nat → Block} (ones : D 1026 = fun _ => 255) {t : Nat} (inside : t < 32768) :
    Layout.default.formatted.dataBitmap.bit D t = true := by
  have start : Layout.default.dataBitmapStart = 1026 := rfl
  rw [Layout.dataBitmap_eq]
  simp only [Bitmap.bit, start]
  rw [Nat.div_eq_of_lt inside, Nat.add_zero, ones, const_bit (by omega), testBit_ones (by omega)]

theorem deepFile_mapped : WellMapped Layout.default.formatted.dataBitmap deepFile deepDisk.blocks := by
  refine ⟨closed_valid _, ?_, ?_, fun out => ?_, fun out => ?_⟩
  · intro x owns
    rw [deepFile_slotId x owns]
    rw [DiskInode.Owns, deepFile_blocks] at owns
    have start : Layout.default.dataAreaStart = 1153 := rfl
    have size : Layout.default.dataBitmapBlocks = 127 := rfl
    have near : 1153 ≤ deepId x ∧ deepId x < 1153 + 32768 := by
      cases x <;> simp only [deepId, Valid] at * <;> omega
    refine ⟨?_, ?_⟩
    · rw [Layout.dataBitmap_eq]
      simp only [Bitmap.InSegment, Bitmap.capacity, start, size]
      omega
    · refine dataBit_ones (show deepDisk.blocks 1026 = fun _ => 255 from rfl) ?_
      rw [Layout.dataBitmap_eq]
      simp only [start]
      omega
  · intro x y ownsX ownsY same
    rw [deepFile_slotId x ownsX, deepFile_slotId y ownsY] at same
    rw [DiskInode.Owns, deepFile_blocks] at ownsX ownsY
    cases x <;> cases y <;> simp only [deepId, Valid] at * <;>
      first | rfl | omega | (congr 1; omega)
  · rw [DiskInode.Owns, deepFile_blocks] at out
    exact absurd (show 23 < 1049 by decide) out
  · rw [DiskInode.Owns, deepFile_blocks] at out
    exact absurd (show 1047 < 1049 by decide) out

theorem deepDisk_device : Layout.default.areaEnd ≤ deepDisk.count := by decide

theorem deepFile_slot :
    SlotInside Layout.default.formatted (Layout.default.formatted.getDiskInodePos 2) :=
  (slotInside_iff Layout.default (by decide)).mpr (by decide)

theorem deepDisk_inode :
    inodeIn (deepDisk.blocks (Layout.default.formatted.getDiskInodePos 2).blockId)
      (Layout.default.formatted.getDiskInodePos 2).blockOffset = deepFile := by
  have here : deepDisk.blocks (Layout.default.formatted.getDiskInodePos 2).blockId =
      putInode Bytes.zero 256 deepFile := rfl
  have offset : (Layout.default.formatted.getDiskInodePos 2).blockOffset = 256 := by decide
  rw [here, offset]
  exact inodeIn_putInode _ _ (by decide)

theorem deepFile_enough : growth deepFile 4292608 ≤
    (Layout.default.formatted.dataBitmap.freeIds deepDisk.blocks).length := by
  rw [growth_shrink (by decide)]
  exact Nat.zero_le _

theorem resize_frame_iff_deepFile :
    let pos := Layout.default.formatted.getDiskInodePos 2
    let bm := Layout.default.formatted.dataBitmap
    let r := (deepFile.resize 4292608 bm (some pos)).run deepDisk
    Touches (OwnWrites bm pos deepFile deepDisk r.1.2 r.2) deepDisk r.2 ↔
      ¬ Strays deepFile 4292608 ∨ pos.blockId = strayTarget 4292608 :=
  (resize_frame_iff Layout.default deepFile_slot deepDisk_device deepFile_mapped (by decide)
    deepFile_enough).1 _ (.inr rfl)

/-- Shrinking `deepFile` by one block writes an index block over the super block. -/
theorem resize_frame_deepFile :
    ¬ ∀ (L : Layout) (pos : Position), SlotInside L.formatted pos →
      ∀ (s : Disk), L.areaEnd ≤ s.count →
      ∀ (d : DiskInode), WellMapped L.formatted.dataBitmap d s.blocks →
      ∀ newSize, newSize < 4294967296 →
        growth d newSize ≤ (L.formatted.dataBitmap.freeIds s.blocks).length →
        let r := (d.resize newSize L.formatted.dataBitmap (some pos)).run s
        Touches (OwnWrites L.formatted.dataBitmap pos d s r.1.2 r.2) s r.2 := by
  intro always
  have segment := Layout.default.segment deepDisk_device
  have size32 : 4292608 < 4294967296 := by decide
  obtain ⟨d', s', run, resized⟩ := run_resize deepFile_mapped segment size32 deepFile_enough
    (own_below (.inr rfl) (Layout.default.slot_below deepFile_slot))
  have touches := always Layout.default _ deepFile_slot deepDisk deepDisk_device deepFile deepFile_mapped
    4292608 (by decide) deepFile_enough
  simp only [run] at touches
  obtain kept | same := (resized.ownWrites_iff segment deepFile_mapped (.inr rfl)).mp touches
  · exact kept ⟨by decide, by decide⟩
  · rw [SBFileSystem.getDiskInodePos, Layout.formatted_eq] at same
    exact absurd same (by decide)

/-! ## Histories of resizes -/

/-- Runs of `resize` calls on one inode, each with enough free blocks and with the inode
itself or no inode to write. -/
inductive ResizeRun (bm : Bitmap) (pos : Position) : DiskInode → Disk → DiskInode → Disk → Prop
  | start (d : DiskInode) (s : Disk) : ResizeRun bm pos d s d s
  | step {d₀ d d' : DiskInode} {s₀ s s' : Disk} {newSize : Nat} {inode : Option Position} {ret : Ret}
      (before : ResizeRun bm pos d₀ s₀ d s) (size32 : newSize < 4294967296)
      (enough : growth d newSize ≤ (bm.freeIds s.blocks).length)
      (own : inode = none ∨ inode = some pos)
      (run : (d.resize newSize bm inode).run s = ((ret, d'), s')) : ResizeRun bm pos d₀ s₀ d' s'

/-- What a history of resizes that started on `s₀` maintains. -/
structure HistoryInv (bm : Bitmap) (s₀ : Disk) (d : DiskInode) (s : Disk) : Prop where
  segment : bm.Segment s.count
  map : WellMapped bm d s.blocks
  used : ∀ id, bm.Used s.blocks id ↔ bm.Used s₀.blocks id ∨ ∃ x, d.Owns x ∧ id = d.slotId s.blocks x
  fresh : ∀ x, d.Owns x → ¬ bm.Used s₀.blocks (d.slotId s.blocks x)

section

variable {bm : Bitmap} {pos : Position} {d₀ d d' : DiskInode} {s₀ s s' : Disk} {newSize : Nat}
  {inode : Option Position}

theorem HistoryInv.resized (inv : HistoryInv bm s₀ d s)
    (resized : Resized bm newSize inode d s d' s') : HistoryInv bm s₀ d' s' := by
  refine ⟨resized.touches.count ▸ inv.segment, resized.map, fun id => ?_, fun x owns old => ?_⟩
  · rw [resized.used]
    constructor
    · rintro (⟨used, kept⟩ | ⟨x, new, -, rfl⟩)
      · obtain old | ⟨x, owns, rfl⟩ := (inv.used id).mp used
        · exact .inl old
        · by_cases stays : d'.Owns x
          · exact .inr ⟨x, stays, (resized.keeps x owns stays).symm⟩
          · exact absurd rfl (kept x owns stays)
      · exact .inr ⟨x, new, rfl⟩
    · rintro (old | ⟨x, owns, rfl⟩)
      · refine .inl ⟨(inv.used id).mpr (.inl old), fun x ownsX _ same => ?_⟩
        exact inv.fresh x ownsX (same ▸ old)
      · by_cases before : d.Owns x
        · have same := resized.keeps x before owns
          refine .inl ⟨?_, fun y ownsY gone eq => gone ?_⟩
          · rw [same]
            exact inv.map.used x before
          · rw [same] at eq
            rw [← inv.map.inj x y before ownsY eq]
            exact owns
        · exact .inr ⟨x, owns, before, rfl⟩
  · by_cases before : d.Owns x
    · rw [resized.keeps x before owns] at old
      exact inv.fresh x before old
    · exact resized.fresh x owns before ((inv.used _).mpr (.inl old))

theorem ResizeRun.inv (low : pos.blockId < bm.startBlockId) (run : ResizeRun bm pos d₀ s₀ d s)
    (inv : HistoryInv bm s₀ d₀ s₀) : HistoryInv bm s₀ d s := by
  induction run with
  | start => exact inv
  | step _ size32 enough own run ih =>
    have before := ih inv
    obtain ⟨d', s', run', resized⟩ :=
      run_resize before.map before.segment size32 enough (own_below own low)
    cases run.symm.trans run'
    exact before.resized resized

end

/-- An inode that owns nothing. -/
structure DiskInode.Empty (d : DiskInode) : Prop where
  size : d.size = 0
  direct : d.direct = fun _ => 0
  one : d.indirect1 = 0
  two : d.indirect2 = 0

theorem DiskInode.Empty.not_owns {d : DiskInode} (empty : d.Empty) (x : Slot) : ¬ d.Owns x := by
  have none : dataBlocks d.size.toNat = 0 := by
    rw [empty.size]
    rfl
  rw [DiskInode.Owns, none]
  cases x <;> simp only [Valid] <;> omega

theorem DiskInode.Empty.history {L : Layout} {d : DiskInode} {s : Disk} (empty : d.Empty)
    (io : L.areaEnd ≤ s.count) : HistoryInv L.formatted.dataBitmap s d s := by
  refine ⟨L.segment io, ⟨closed_valid _, ?_, ?_, fun _ => empty.one, fun _ => empty.two⟩, ?_, ?_⟩
  · exact fun x owns => absurd owns (empty.not_owns x)
  · exact fun x y owns => absurd owns (empty.not_owns x)
  · refine fun id => ⟨.inl, ?_⟩
    rintro (used | ⟨x, owns, -⟩)
    · exact used
    · exact absurd owns (empty.not_owns x)
  · exact fun x owns => absurd owns (empty.not_owns x)

/-- After any history of resizes from an empty inode the owned blocks are distinct and the used
bits are the old ones and the owned ones.  The next resize reaches its size, keeps the blocks
that stay, gives the others back to the bitmap and takes its new ones from what was free. -/
theorem resize_history (L : Layout) {pos : Position} (slot : SlotInside L.formatted pos)
    {d₀ d : DiskInode} {s₀ s : Disk} (empty : d₀.Empty) (io : L.areaEnd ≤ s₀.count)
    (run : ResizeRun L.formatted.dataBitmap pos d₀ s₀ d s) :
    (∀ x y, d.Owns x → d.Owns y → d.slotId s.blocks x = d.slotId s.blocks y → x = y) ∧
    (∀ k, k < dataBlocks d.size.toNat → ((d.blockId k).run s).1 = d.slotId s.blocks (data k)) ∧
    (∀ id, L.formatted.dataBitmap.Used s.blocks id ↔
      L.formatted.dataBitmap.Used s₀.blocks id ∨ ∃ x, d.Owns x ∧ id = d.slotId s.blocks x) ∧
    (∀ x, d.Owns x → ¬ L.formatted.dataBitmap.Used s₀.blocks (d.slotId s.blocks x)) ∧
    ∀ newSize inode, newSize < 4294967296 → inode = none ∨ inode = some pos →
      growth d newSize ≤ (L.formatted.dataBitmap.freeIds s.blocks).length →
      let r := (d.resize newSize L.formatted.dataBitmap inode).run s
      r.1.1 = .kSuccess ∧ r.1.2.size.toNat = newSize ∧
      (∀ x, d.Owns x → r.1.2.Owns x → r.1.2.slotId r.2.blocks x = d.slotId s.blocks x) ∧
      (∀ id, L.formatted.dataBitmap.Used r.2.blocks id ↔
        (L.formatted.dataBitmap.Used s.blocks id ∧
          ∀ x, d.Owns x → ¬ r.1.2.Owns x → id ≠ d.slotId s.blocks x) ∨
        ∃ x, r.1.2.Owns x ∧ ¬ d.Owns x ∧ id = r.1.2.slotId r.2.blocks x) ∧
      (∀ x, r.1.2.Owns x → ¬ d.Owns x →
        ¬ L.formatted.dataBitmap.Used s.blocks (r.1.2.slotId r.2.blocks x)) ∧
      ∀ k, k < min (dataBlocks d.size.toNat) (dataBlocks newSize) →
        ((r.1.2.blockId k).run r.2).1 = ((d.blockId k).run s).1 := by
  have low := L.slot_below slot
  have inv := run.inv low (empty.history io)
  -- `block_id` gives the block of the slot, as the map is right in every state of the run
  have found : ∀ k, k < dataBlocks d.size.toNat →
      ((d.blockId k).run s).1 = d.slotId s.blocks (data k) := by
    intro k inside
    have := dataBlocks_le d.size.toNat_lt
    rw [run_blockId inv.map inv.segment inside (by omega)]
  refine ⟨inv.map.inj, found, inv.used, inv.fresh, ?_⟩
  intro newSize inode size32 own enough
  obtain ⟨d', s', run', resized⟩ :=
    run_resize inv.map inv.segment size32 enough (own_below own low)
  have after := inv.resized resized
  simp only [run', true_and]
  refine ⟨resized.size, resized.keeps, resized.used, resized.fresh, ?_⟩
  intro k inside
  have := dataBlocks_le size32
  have owns : d'.Owns (data k) := by
    rw [DiskInode.Owns, resized.size]
    simp only [Valid]
    omega
  rw [run_blockId after.map after.segment owns (by omega), found k (by omega),
    resized.keeps (data k) (by simp only [DiskInode.Owns, Valid]; omega) owns]

def emptyFile : DiskInode :=
  { deepFile with size := 0, direct := fun _ => 0, indirect1 := 0, indirect2 := 0 }

theorem deepDisk_free : 1 ≤ (Layout.default.formatted.dataBitmap.freeIds deepDisk.blocks).length := by
  refine List.length_pos_of_mem (a := 33921) (Bitmap.mem_freeIds.mpr ⟨?_, ?_⟩)
  · rw [Layout.dataBitmap_eq]
    exact ⟨by decide, by decide⟩
  · rw [Layout.dataBitmap_eq]
    have block : deepDisk.blocks 1027 = Bytes.zero := rfl
    have start : Layout.default.dataBitmapStart = 1026 := rfl
    have area : Layout.default.dataAreaStart = 1153 := rfl
    simp [Bitmap.bit, start, area, block, Bytes.bit]

theorem resize_history_emptyFile : ∃ d s,
    ResizeRun Layout.default.formatted.dataBitmap (Layout.default.formatted.getDiskInodePos 2)
      emptyFile deepDisk d s ∧ d.size.toNat = 4096 ∧
    ∀ id, Layout.default.formatted.dataBitmap.Used s.blocks id ↔
      Layout.default.formatted.dataBitmap.Used deepDisk.blocks id ∨
        ∃ x, d.Owns x ∧ id = d.slotId s.blocks x := by
  have empty : emptyFile.Empty := ⟨rfl, rfl, rfl, rfl⟩
  have start := empty.history (L := .default) deepDisk_device
  have enough : growth emptyFile 4096 ≤
      (Layout.default.formatted.dataBitmap.freeIds deepDisk.blocks).length := deepDisk_free
  obtain ⟨d, s, run, resized⟩ := run_resize start.map start.segment (by decide) enough
    (own_below (.inl rfl) (Layout.default.slot_below deepFile_slot))
  have step : ResizeRun Layout.default.formatted.dataBitmap
      (Layout.default.formatted.getDiskInodePos 2) emptyFile deepDisk d s :=
    .step (.start _ _) (by decide) enough (.inl rfl) run
  exact ⟨d, s, step, resized.size,
    (resize_history Layout.default deepFile_slot empty deepDisk_device step).2.2.1⟩

end Sbfs
