import Sbfs.Volume
import Sbfs.WriteData

/-! # Writing one file among many

What `Inode::write_data` and `Inode::read_data` do to the bytes of a file
(`Inode.run_writeData`, `Inode.run_readData`), and that they leave the other inodes of
the volume alone (`writeData_isolated`). -/

namespace Sbfs

open Slot

namespace DiskInode

/-- The block of each inner id. -/
def ids (d : DiskInode) (D : Nat → Block) (k : Nat) : Nat := d.slotId D (data k)

/-- Byte `i` of the file. -/
def byte (d : DiskInode) (D : Nat → Block) (i : Nat) : UInt8 := byteAt (d.ids D) D i

theorem owns_data {d : DiskInode} {i : Nat} (inside : i < d.size.toNat) : d.Owns (data (i / 4096)) := by
  simp only [Owns, Valid, dataBlocks]
  omega

theorem byte_congr {d d' : DiskInode} {D D' : Nat → Block} {i : Nat}
    (ids : d'.ids D' (i / 4096) = d.ids D (i / 4096))
    (block : D' (d.ids D (i / 4096)) = D (d.ids D (i / 4096))) : d'.byte D' i = d.byte D i := by
  rw [byte, byte, byteAt, byteAt, ids, block]

end DiskInode

/-- The file goes from `d` on `s` to `d'` on `s'` by a copy of `len` bytes to `offset`, after
which it is large enough for them.  The bytes of new blocks are those that `s` holds. -/
structure Overwrites (bm : Bitmap) (W : Nat → Prop) (offset len : Nat) (buf : Mem) (d : DiskInode)
    (s : Disk) (d' : DiskInode) (s' : Disk) : Prop where
  evolved : Evolved bm W d s d' s'
  noLeak : NoLeak bm d s d' s'
  size : d'.size.toNat = max d.size.toNat (offset + len)
  type : d'.type = d.type
  linkCnt : d'.linkCnt = d.linkCnt
  attrs : d'.uid = d.uid ∧ d'.gid = d.gid ∧ d'.mode = d.mode
  keeps : ∀ x, d.Owns x → d'.slotId s'.blocks x = d.slotId s.blocks x
  bytes : ∀ i, i < d'.size.toNat →
    d'.byte s'.blocks i = splice (byteAt (d'.ids s'.blocks) s.blocks) offset len buf i

section

variable {bm : Bitmap} {W : Nat → Prop} {d d' : DiskInode} {s s' : Disk} {newSize offset len : Nat}
  {buf : Mem} {inode : Option Position} {pos : Position} {fs : SBFileSystem}

theorem strayTarget_low (strays : Strays d newSize) : strayTarget newSize < 1024 := by
  have := dataBlocks_le d.size.toNat_lt
  have := strays.2
  rw [strayTarget]
  omega

/-- `resize` writes no data block that the file has afterwards. -/
theorem Resized.data_kept (resized : Resized bm newSize inode d s d' s') (segment : bm.Segment s.count)
    (low : ∀ pos, inode = some pos → pos.blockId < bm.startBlockId) {k : Nat} (owns : d'.Owns (data k)) :
    s'.blocks (d'.ids s'.blocks k) = s.blocks (d'.ids s'.blocks k) := by
  have used := resized.map.used _ owns
  have bound := segment.bound used.1
  have after := segment.after
  apply resized.touches.blocks
  rintro (holds | ⟨x, isIndex, ownsX, same⟩ | ⟨pos, some, same⟩ | ⟨strays, same⟩)
  · exact segment.not_holds used.1 holds
  · have index : (data k).isIndex = true := by
      rw [resized.map.inj _ x owns ownsX same]
      exact isIndex
    cases index
  · have := low pos some
    have := used.1.1
    rw [DiskInode.ids] at same
    omega
  · have := strayTarget_low strays
    rw [DiskInode.ids] at same
    omega

/-- The bytes that were there before `resize` and are there after it. -/
theorem Resized.bytes (resized : Resized bm newSize inode d s d' s') (segment : bm.Segment s.count)
    (low : ∀ pos, inode = some pos → pos.blockId < bm.startBlockId) {i : Nat}
    (old : i < d.size.toNat) (new : i < newSize) : d'.byte s'.blocks i = d.byte s.blocks i := by
  have owns' : d'.Owns (data (i / 4096)) := DiskInode.owns_data (by rw [resized.size]; exact new)
  have ids := resized.keeps _ (DiskInode.owns_data old) owns'
  have kept := resized.data_kept segment low owns'
  rw [show d'.ids s'.blocks (i / 4096) = d.ids s.blocks (i / 4096) from ids] at kept
  exact DiskInode.byte_congr ids kept

/-- A growth writes besides the blocks of the file free ones and the bitmap only. -/
theorem Resized.evolved_grown (resized : Resized bm newSize none d s d' s')
    (grows : d.size.toNat ≤ newSize) : Evolved bm W d s d' s' :=
  resized.evolved.mono fun b extra => by
    -- without an inode to write, and without a shrink, there is no extra block
    cases extra with
    | inl own =>
      obtain ⟨pos, same, -⟩ := own
      cases same
    | inr stray =>
      have := stray.1.2
      simp only [dataBlocks] at this
      omega

/-- Growing a file and copying bytes into it. -/
theorem Resized.run_writeData {d₁ : DiskInode} {s₁ : Disk}
    (resized : Resized bm (max d.size.toNat (offset + len)) none d s d₁ s₁)
    (segment : bm.Segment s.count) (failId : s.count ≤ kFailId) (buf : Mem) (some : 0 < len)
    (small : FitsInt offset len) :
    ∃ d' s', (d₁.writeData offset buf len).run s₁ = (((len : Int), d'), s') ∧
      Overwrites bm W offset len buf d s d' s' ∧ bm.freeIds s'.blocks = bm.freeIds s₁.blocks := by
  have segment₁ : bm.Segment s₁.count := resized.touches.count ▸ segment
  have bound := dataBlocks_le d₁.size.toNat_lt
  have located := located_of_map resized.map segment₁ fun k owns => by
    simp only [DiskInode.Owns, Valid] at owns
    omega
  obtain ⟨ret, d₂, s₂, run, retimed, touches, good⟩ := run_diskWriteData buf located some
    (resized.size ▸ Nat.le_max_right _ _) (resized.touches.count ▸ failId) fun k _ upper => by
      rw [DiskInode.Owns, resized.size]
      simp only [Valid, dataBlocks]
      omega
  obtain ⟨rfl, filled⟩ := good small
  -- growth, the bytes, the times
  obtain ⟨copied, copiedNoLeak, ids⟩ := Evolved.of_data (W := W) resized.map segment₁ touches
  obtain ⟨stamped, stampedNoLeak⟩ := Evolved.retimed (W := W) copied.map retimed (.refl _ s₂)
  have grown : Evolved bm W d s d₁ s₁ := resized.evolved_grown (Nat.le_max_left _ _)
  have pointers : d₂.slotId s₂.blocks = d₁.slotId s₂.blocks :=
    slotId_pointers (by rw [retimed]) (by rw [retimed]) (by rw [retimed]) _
  have size : d₂.size = d₁.size := by rw [retimed]
  have bits : bm.freeIds s₂.blocks = bm.freeIds s₁.blocks := Bitmap.freeIds_congr fun b holds => by
    apply touches.blocks
    rintro ⟨k, owns, rfl⟩
    exact segment₁.not_holds (resized.map.used _ owns).1 holds
  refine ⟨d₂, s₂, run, ?_, bits⟩
  constructor
  case evolved => exact grown.trans (copied.trans stamped)
  case noLeak => exact resized.noLeak.trans (copiedNoLeak.trans stampedNoLeak)
  case size => rw [size, resized.size]
  case type =>
    rw [retimed]
    exact resized.type
  case linkCnt =>
    rw [retimed]
    exact resized.linkCnt
  case attrs =>
    rw [retimed]
    exact resized.attrs
  case keeps =>
    intro x owns
    have still : d₁.Owns x := by
      refine Valid.mono ?_ owns
      rw [resized.size]
      simp only [dataBlocks]
      omega
    rw [pointers, ids x still, resized.keeps x owns still]
  case bytes =>
    intro i inside
    have owns : d₁.Owns (data (i / 4096)) := DiskInode.owns_data (size ▸ inside)
    have same : d₂.ids s₂.blocks (i / 4096) = d₁.ids s₁.blocks (i / 4096) := by
      rw [DiskInode.ids, pointers, ids _ owns, DiskInode.ids]
    have inj : ∀ j k, d₁.Owns (data j) → d₁.Owns (data k) →
        d₁.slotId s₁.blocks (data j) = d₁.slotId s₁.blocks (data k) → j = k := by
      intro j k ownsJ ownsK eq
      cases resized.map.inj _ _ ownsJ ownsK eq
      rfl
    have before : byteAt (d₂.ids s₂.blocks) s.blocks i = byteAt (d₁.ids s₁.blocks) s₁.blocks i := by
      rw [byteAt, byteAt, same, resized.data_kept segment (fun pos none => by cases none) owns]
    calc
      d₂.byte s₂.blocks i = byteAt (d₁.ids s₁.blocks) s₂.blocks i := by
        rw [DiskInode.byte, byteAt, byteAt, same]
      _ = splice (byteAt (d₁.ids s₁.blocks) s₁.blocks) offset len buf i := filled.bytes inj i owns
      _ = splice (byteAt (d₂.ids s₂.blocks) s.blocks) offset len buf i := splice_congr before.symm

/-- Saving the inode after its bytes have changed. -/
theorem Overwrites.save (written : Overwrites bm W offset len buf d s d' s') (segment : bm.Segment s.count)
    (low : pos.blockId < bm.startBlockId) (saved : W pos.blockId)
    (wide : ∀ b, W b → b < bm.startBlockId) (d₁ : DiskInode) :
    Overwrites bm W offset len buf d s d'
      (s'.put pos.blockId (putInode (s'.blocks pos.blockId) pos.blockOffset d₁)) := by
  generalize hs : s'.put pos.blockId (putInode (s'.blocks pos.blockId) pos.blockOffset d₁) = s₁
  have segment' := written.evolved.segment segment
  have after := segment.after
  have put : Touches W s' s₁ := hs ▸ .put _ _ saved
  obtain ⟨kept, noLeak, ids⟩ := Evolved.of_below written.evolved.map segment' put wide
  constructor
  case evolved => exact written.evolved.trans kept
  case noLeak => exact written.noLeak.trans noLeak
  case size => exact written.size
  case type => exact written.type
  case linkCnt => exact written.linkCnt
  case attrs => exact written.attrs
  case keeps =>
    intro x owns
    have still : d'.Owns x := by
      refine Valid.mono ?_ owns
      rw [written.size]
      simp only [dataBlocks]
      omega
    rw [ids x still, written.keeps x owns]
  case bytes =>
    intro i inside
    have owns : d'.Owns (data (i / 4096)) := DiskInode.owns_data inside
    have same : d'.ids s₁.blocks (i / 4096) = d'.ids s'.blocks (i / 4096) := ids _ owns
    have high := (written.evolved.map.used _ owns).1.1
    have block : s₁.blocks (d'.ids s'.blocks (i / 4096)) = s'.blocks (d'.ids s'.blocks (i / 4096)) := by
      rw [← hs, Store.put_blocks_ne]
      rw [DiskInode.ids]
      omega
    rw [DiskInode.byte_congr same block, written.bytes i inside]
    apply splice_congr
    rw [byteAt, byteAt, same]

/-- The inode at `pos` of the disk. -/
def DiskInode.At (d : DiskInode) (D : Nat → Block) (pos : Position) : Prop :=
  inodeIn (D pos.blockId) pos.blockOffset = d

/-- Block `pos.blockId` changes in the inode only. -/
def Saved (pos : Position) (s : Disk) (d' : DiskInode) (s' : Disk) : Prop :=
  s'.blocks pos.blockId = putInode (s.blocks pos.blockId) pos.blockOffset d'

theorem Evolved.slot_kept (evolved : Evolved bm W d s d' s') (segment : bm.Segment s.count) {b : Nat}
    (low : b < bm.startBlockId) (out : ¬ W b) : s'.blocks b = s.blocks b := by
  have after := segment.after
  apply evolved.touches.blocks
  rintro (holds | inW | own)
  · have := holds.1
    omega
  · exact out inW
  · have := own.1.1
    omega

namespace Inode

/-- `Inode::write_data` with enough free blocks. -/
theorem run_writeData (here : d.At s.blocks pos) (low : pos.blockId < fs.dataBitmap.startBlockId)
    (map : WellMapped fs.dataBitmap d s.blocks) (segment : fs.dataBitmap.Segment s.count)
    (failId : s.count ≤ kFailId) (some : 0 < len) (small : FitsInt offset len)
    (enough : growth d (offset + len) ≤ (fs.dataBitmap.freeIds s.blocks).length) (buf : Mem) :
    ∃ d' s', (writeData fs pos offset buf len).run s = ((len : Int), s') ∧
      Overwrites fs.dataBitmap (· = pos.blockId) offset len buf d s d' s' ∧ Saved pos s d' s' := by
  have after := segment.after
  have onDevice : pos.blockId < s.count := by
    have := segment.onDevice
    omega
  obtain ⟨d₁, s₁, run₁, resized⟩ := run_growFor map segment (Nat.lt_of_le_of_lt small.range (by decide)) enough
  obtain ⟨d₂, s₂, run₂, written, -⟩ :=
    resized.run_writeData (W := fun _ => False) segment failId buf some small
  have count₁ : s₁.count = s.count := resized.touches.count
  have success : ¬ (len : Int) = -1 := by omega
  -- nothing before the last step touches the block of the inode
  have untouched : s₂.blocks pos.blockId = s.blocks pos.blockId :=
    written.evolved.slot_kept segment low id
  have written' : Overwrites fs.dataBitmap (· = pos.blockId) offset len buf d s d₂ s₂ :=
    { written with evolved := written.evolved.mono fun _ => False.elim }
  have count₂ : s₂.count = s.count := written.evolved.touches.count
  refine ⟨d₂, _, ?_, written'.save segment low rfl (fun b same => same ▸ low) d₂, ?_⟩
  · rw [run_writeData_parts onDevice here, run₁, run_store (count₁ ▸ onDevice) run₂, if_neg success]
  · rw [Saved, Store.put_blocks_same _ _ (by omega), untouched]

/-- A write of no byte grows the file and stamps it. -/
theorem run_writeData_none (here : d.At s.blocks pos) (low : pos.blockId < fs.dataBitmap.startBlockId)
    (map : WellMapped fs.dataBitmap d s.blocks) (segment : fs.dataBitmap.Segment s.count)
    (range : offset < 4294967296) (enough : growth d offset ≤ (fs.dataBitmap.freeIds s.blocks).length) (buf : Mem) :
    ∃ d' s', (writeData fs pos offset buf 0).run s = (0, s') ∧
      Overwrites fs.dataBitmap (· = pos.blockId) offset 0 buf d s d' s' ∧ Saved pos s d' s' := by
  have onDevice : pos.blockId < s.count := by
    have := segment.onDevice
    have := segment.after
    omega
  have range₀ : offset + 0 < 4294967296 := range
  obtain ⟨d₁, s₁, grow, resized⟩ := run_growFor map segment range₀ enough
  obtain ⟨d₂, s₂, stamp, retimed, quiet⟩ := run_updateMeta d₁ 3 s₁
  have write : (d₁.writeData offset buf 0).run s₁ = ((0, d₂), s₂) := by
    simp only [DiskInode.writeData, DevProg.run_bind, stamp, if_true, DevProg.run_pure]
  have count₁ : s₁.count = s.count := resized.touches.count
  have count₂ : s₂.count = s₁.count := quiet.count
  have blocks : s₂.blocks = s₁.blocks := quiet.quiet
  have size : d₂.size = d₁.size := by rw [retimed]
  have pointers : d₂.slotId s₂.blocks = d₁.slotId s₁.blocks := by
    rw [blocks]
    exact slotId_pointers (by rw [retimed]) (by rw [retimed]) (by rw [retimed]) _
  have grown : Evolved fs.dataBitmap (fun _ => False) d s d₁ s₁ := resized.evolved_grown (Nat.le_max_left _ _)
  obtain ⟨stamped, stampedNoLeak⟩ := Evolved.retimed (W := fun _ => False) resized.map retimed quiet
  have evolved := grown.trans stamped
  have untouched : s₂.blocks pos.blockId = s.blocks pos.blockId := evolved.slot_kept segment low id
  have written : Overwrites fs.dataBitmap (· = pos.blockId) offset 0 buf d s d₂ s₂ := by
    constructor
    case evolved => exact evolved.mono fun _ => False.elim
    case noLeak => exact resized.noLeak.trans stampedNoLeak
    case size => rw [size, resized.size]
    case type =>
      rw [retimed]
      exact resized.type
    case linkCnt =>
      rw [retimed]
      exact resized.linkCnt
    case attrs =>
      rw [retimed]
      exact resized.attrs
    -- the growth keeps the old blocks, and the stamp all pointers
    case keeps =>
      intro x owns
      have still : d₁.Owns x := by
        refine Valid.mono ?_ owns
        rw [resized.size]
        simp only [dataBlocks]
        omega
      rw [pointers, resized.keeps x owns still]
    case bytes =>
      intro i inside
      have owns : d₁.Owns (data (i / 4096)) := DiskInode.owns_data (size ▸ inside)
      have ids : d₂.ids s₂.blocks (i / 4096) = d₁.ids s₁.blocks (i / 4096) := congrFun pointers _
      rw [splice_zero, DiskInode.byte, byteAt, byteAt, ids, blocks,
        resized.data_kept segment (fun pos none => by cases none) owns]
  refine ⟨d₂, _, ?_, written.save segment low rfl (fun b same => same ▸ low) d₂, ?_⟩
  · rw [run_writeData_parts onDevice here, grow, run_store (count₁ ▸ onDevice) write, if_neg (by decide)]
  · rw [Saved, Store.put_blocks_same _ _ (by omega), untouched]

/-- `Inode::write_data` of any number of bytes. -/
theorem run_writeData_any (here : d.At s.blocks pos) (low : pos.blockId < fs.dataBitmap.startBlockId)
    (map : WellMapped fs.dataBitmap d s.blocks) (segment : fs.dataBitmap.Segment s.count)
    (failId : s.count ≤ kFailId) (small : offset + len < 2147483648)
    (enough : growth d (offset + len) ≤ (fs.dataBitmap.freeIds s.blocks).length) (buf : Mem) :
    ∃ d' s', (writeData fs pos offset buf len).run s = ((len : Int), s') ∧
      Overwrites fs.dataBitmap (· = pos.blockId) offset len buf d s d' s' ∧ Saved pos s d' s' := by
  by_cases some : 0 < len
  · exact run_writeData here low map segment failId some (.inl small) enough buf
  · obtain rfl : len = 0 := by omega
    exact run_writeData_none here low map segment (by omega) enough buf

/-- `Inode::read_data` inside the file. -/
theorem run_readData (here : d.At s.blocks pos) (low : pos.blockId < bm.startBlockId)
    (map : WellMapped bm d s.blocks) (segment : bm.Segment s.count) (some : 0 < len)
    (start : offset < d.size.toNat) (fits : FitsInt offset (min len (d.size.toNat - offset)))
    (failId : s.count ≤ kFailId) (size32 : offset + len < 4294967296) (buf : Mem) :
    ∃ d' s', (readData pos offset buf len).run s =
        ((((min len (d.size.toNat - offset) : Nat) : Int),
          splice buf 0 (min len (d.size.toNat - offset)) fun i => d.byte s.blocks (offset + i)), s') ∧
      Retimed d d' ∧ Touches (· = pos.blockId) s s' ∧ Saved pos s d' s' := by
  have after := segment.after
  have onDevice : pos.blockId < s.count := by
    have := segment.onDevice
    omega
  have bound := dataBlocks_le d.size.toNat_lt
  have located := located_of_map map segment fun k owns => by
    simp only [DiskInode.Owns, Valid] at owns
    omega
  obtain ⟨d₁, s₁, run, retimed, quiet⟩ := run_diskReadData buf located some start fits failId size32
    fun k upper => by
      simp only [DiskInode.Owns, Valid, dataBlocks]
      omega
  have onDevice₁ : pos.blockId < s₁.count := quiet.count ▸ onDevice
  have success : ¬ ((min len (d.size.toNat - offset) : Nat) : Int) = -1 := by omega
  refine ⟨d₁, s₁.put pos.blockId (putInode (s₁.blocks pos.blockId) pos.blockOffset d₁), ?_, retimed,
    (quiet.mono fun _ => False.elim).trans (.put _ _ rfl), ?_⟩
  · have read : (readInode pos).run s = (Option.some d, s) := by rw [run_readInode onDevice, here]
    rw [readData, DevProg.run_bind, read]
    simp only [DevProg.run_bind, run, success, if_false, run_writeInode d₁ onDevice₁, DevProg.run_pure]
    rfl
  · rw [Saved, Store.put_blocks_same _ _ onDevice₁, quiet.quiet]

end Inode

end

/-! ## The inodes of a disk -/

namespace Layout

variable (L : Layout)

/-- The place of inode `i`. -/
def slot (i : Nat) : Position := L.formatted.getDiskInodePos i

/-- Inode `i` as the disk has it. -/
def inode (D : Nat → Block) (i : Nat) : DiskInode := inodeIn (D (L.slot i).blockId) (L.slot i).blockOffset

/-- The ids of the slots in the inode area; an id has 32 bits. -/
def SlotId (i : Nat) : Prop := i < 32768 * L.inodeBitmapBlocks ∧ i < 4294967296

variable {L} {i j : Nat}

theorem slot_eq (slotId : L.SlotId i) : L.slot i = ⟨L.inodeAreaStart + i / 32, i % 32 * 128⟩ := by
  have := L.someData
  have := L.total32
  rw [SlotId] at slotId
  rw [slot, SBFileSystem.getDiskInodePos, L.formatted_eq]
  simp only [Position.mk.injEq, and_true, inodeAreaStart]
  omega

theorem diskInodeId_slot (slotId : L.SlotId i) : L.formatted.getDiskInodeId (L.slot i) = i := by
  have area : L.formatted.inodeAreaStartBlock = L.inodeAreaStart := by rw [L.formatted_eq]
  have small := slotId.2
  rw [SBFileSystem.getDiskInodeId, slot_eq slotId, area, uint32]
  simp only
  omega

theorem slot_inside (slotId : L.SlotId i) : SlotInside L.formatted (L.slot i) :=
  (slotInside_iff L slotId.2).mpr slotId.1

theorem slot_low (slotId : L.SlotId i) : (L.slot i).blockId < L.formatted.dataBitmap.startBlockId :=
  L.slot_below (slot_inside slotId)

theorem inode_saved {s s' : Disk} {d : DiskInode} (slotId : L.SlotId i) (saved : Saved (L.slot i) s d s') :
    L.inode s'.blocks i = d := by
  rw [inode, show s'.blocks (L.slot i).blockId = _ from saved]
  exact inodeIn_putInode _ _ (slot_inside slotId).inBlock

/-- Saving an inode leaves the 31 others of its block alone. -/
theorem inode_other {s s' : Disk} {d : DiskInode} (slotId : L.SlotId i) (slotId' : L.SlotId j)
    (ne : j ≠ i) (saved : Saved (L.slot i) s d s')
    (others : (L.slot j).blockId ≠ (L.slot i).blockId →
      s'.blocks (L.slot j).blockId = s.blocks (L.slot j).blockId) :
    L.inode s'.blocks j = L.inode s.blocks j := by
  by_cases same : (L.slot j).blockId = (L.slot i).blockId
  · rw [inode, inode, same, show s'.blocks (L.slot i).blockId = _ from saved]
    apply inodeIn_putInode_disjoint
    rw [slot_eq slotId, slot_eq slotId'] at *
    simp only at *
    omega
  · rw [inode, inode, others same]

end Layout

/-- A disk of layout `L` with the live inodes in the inode area and their blocks apart. -/
structure Populated (L : Layout) (s : Disk) (live : Nat → Prop) : Prop where
  device : L.areaEnd ≤ s.count
  /-- `num_data_blocks_` has 32 bits. -/
  failId : s.count ≤ kFailId
  slots : ∀ i, live i → L.SlotId i
  volume : Volume L.formatted.dataBitmap s live (L.inode s.blocks)

/-- Inode `j` and all that hangs on it are on `s'` what they are on `s`. -/
structure SameFile (L : Layout) (j : Nat) (s s' : Disk) : Prop where
  inode : L.inode s'.blocks j = L.inode s.blocks j
  ids : ∀ x, (L.inode s.blocks j).Owns x →
    (L.inode s'.blocks j).slotId s'.blocks x = (L.inode s.blocks j).slotId s.blocks x
  bytes : ∀ i, i < (L.inode s.blocks j).size.toNat →
    (L.inode s'.blocks j).byte s'.blocks i = (L.inode s.blocks j).byte s.blocks i

section

variable {L : Layout} {s s' : Disk} {live : Nat → Prop} {W : Nat → Prop} {a : Nat} {d' : DiskInode}

/-- A step of one live inode that saves it in its slot. -/
theorem Populated.evolve (state : Populated L s live) (here : live a)
    (evolved : Evolved L.formatted.dataBitmap W (L.inode s.blocks a) s d' s')
    (saved : Saved (L.slot a) s d' s') (low : ∀ b, W b → b < L.formatted.dataBitmap.startBlockId)
    (area : ∀ b, W b → L.inodeAreaStart ≤ b → b = (L.slot a).blockId) :
    Populated L s' live ∧ L.inode s'.blocks a = d' ∧ ∀ j, live j → j ≠ a → SameFile L j s s' := by
  have slotId := state.slots a here
  have self : L.inode s'.blocks a = d' := Layout.inode_saved slotId saved
  have other : ∀ j, live j → j ≠ a → L.inode s'.blocks j = L.inode s.blocks j := by
    intro j there ne
    have slotId' := state.slots j there
    refine Layout.inode_other slotId slotId' ne saved fun apart => ?_
    apply evolved.slot_kept state.volume.segment (Layout.slot_low slotId')
    intro inW
    refine apart (area _ inW ?_)
    rw [Layout.slot_eq slotId']
    exact Nat.le_add_right _ _
  have same : ∀ j, live j → live j → L.inode s'.blocks j = Function.update (L.inode s.blocks) a d' j := by
    intro j there _
    by_cases is : j = a
    · rw [is, Function.update_self, self]
    · rw [Function.update_of_ne is, other j there is]
  refine ⟨⟨evolved.touches.count ▸ state.device, evolved.touches.count ▸ state.failId, state.slots, ?_⟩,
    self, fun j there ne => ?_⟩
  · exact (state.volume.evolve here evolved low).congr same fun j there none => absurd there none
  · have ids := state.volume.kept_ids here evolved low there ne
    have inode := other j there ne
    refine ⟨inode, fun x owns => by rw [inode, ids x owns], fun i inside => ?_⟩
    have owns := DiskInode.owns_data inside
    rw [inode]
    exact DiskInode.byte_congr (ids _ owns)
      (state.volume.kept here evolved low there ne ⟨_, owns, rfl⟩)

end

/-- A write to inode `a` is read back and changes no other inode. -/
theorem writeData_isolated (L : Layout) {s : Disk} {live : Nat → Prop} (state : Populated L s live)
    {a : Nat} (here : live a) {offset len : Nat} (some : 1 ≤ len) (small : offset + len < 2147483648)
    (enough : growth (L.inode s.blocks a) (offset + len) ≤
      (L.formatted.dataBitmap.freeIds s.blocks).length) (buf : Mem) :
    ∃ s', (Inode.writeData L.formatted (L.slot a) offset buf len).run s = ((len : Int), s') ∧
      (∀ out, ∃ got s'', (Inode.readData (L.slot a) offset out len).run s' = (((len : Int), got), s'') ∧
        ∀ i, i < len → got i = buf i) ∧
      (∀ i, i < (L.inode s.blocks a).size.toNat → i < offset ∨ offset + len ≤ i →
        (L.inode s'.blocks a).byte s'.blocks i = (L.inode s.blocks a).byte s.blocks i) ∧
      (L.inode s'.blocks a).size.toNat = max (L.inode s.blocks a).size.toNat (offset + len) ∧
      ∀ j, live j → j ≠ a → SameFile L j s s' := by
  have slotId := state.slots a here
  have low := Layout.slot_low slotId
  have stored : (L.inode s.blocks a).At s.blocks (L.slot a) := rfl
  obtain ⟨d', s', run, written, saved⟩ := Inode.run_writeData stored low (state.volume.map a here)
    state.volume.segment state.failId some (.inl small) enough buf
  obtain ⟨state', self, others⟩ := state.evolve here written.evolved saved (fun b same => same ▸ low)
    fun b same _ => same
  have size := written.size
  refine ⟨s', run, fun out => ?_, fun i old outside => ?_, by rw [self, size], others⟩
  · -- the file ends behind the bytes, so none of them is cut off
    have fits : min len (d'.size.toNat - offset) = len := by omega
    have stored' : d'.At s'.blocks (L.slot a) := self
    have start : offset < d'.size.toNat := by omega
    obtain ⟨d'', s'', run', -⟩ := Inode.run_readData stored' low written.evolved.map
      (written.evolved.segment state.volume.segment) some start (.inl (by omega))
      (written.evolved.touches.count ▸ state.failId) (by omega) out
    rw [fits] at run'
    refine ⟨_, s'', run', fun i inside => ?_⟩
    rw [splice_inside (by omega) (by omega), written.bytes _ (by omega),
      splice_inside (by omega) (by omega)]
    congr 1
    omega
  · have owns := DiskInode.owns_data old
    rw [self, written.bytes i (by omega), splice_outside outside, DiskInode.byte, byteAt, byteAt,
      show d'.ids s'.blocks (i / 4096) = _ from written.keeps _ owns]
    rfl

/-! ### Two empty files -/

/-- Slots 2 and 3 of `oneFileDisk`: the second holds zeros only. -/
def inTwoFiles (i : Nat) : Prop := i = 2 ∨ i = 3

theorem oneFileDisk_slot2 (fill : UInt8) : Layout.default.inode (oneFileDisk fill).blocks 2 = emptyFile :=
  oneFileDisk_inode fill

theorem zeroInode_empty : (inodeIn Bytes.zero 384).Empty := by
  constructor <;> simp [inodeIn, DiskInode.ofMem, le]

theorem oneFileDisk_slot3 (fill : UInt8) : (Layout.default.inode (oneFileDisk fill).blocks 3).Empty := by
  have here : Layout.default.inode (oneFileDisk fill).blocks 3 =
      inodeIn (putInode Bytes.zero 256 emptyFile) 384 := rfl
  rw [here, inodeIn_putInode_disjoint _ _ (.inr (by decide))]
  exact zeroInode_empty

theorem oneFileDisk_empty {fill : UInt8} {i : Nat} (live : inTwoFiles i) :
    (Layout.default.inode (oneFileDisk fill).blocks i).Empty := by
  obtain rfl | rfl := live
  · rw [oneFileDisk_slot2]
    exact emptyFile_empty
  · exact oneFileDisk_slot3 fill

theorem oneFileDisk_populated (fill : UInt8) : Populated .default (oneFileDisk fill) inTwoFiles := by
  constructor
  case device => exact oneFileDisk_device fill
  case failId => exact show 4194304 ≤ 4294967295 by decide
  case slots =>
    intro i live
    obtain rfl | rfl := live <;> exact ⟨by decide, by decide⟩
  case volume =>
    refine ⟨Layout.default.segment (oneFileDisk_device fill), fun i live => ?_, ?_⟩
    · exact ((oneFileDisk_empty live).history (oneFileDisk_device fill)).map
    · rintro i j live - b ⟨x, own, -⟩
      exact absurd own ((oneFileDisk_empty live).not_owns x)

/-- The first byte of one of the two files. -/
theorem writeData_isolated_twoFiles :
    ∃ s', (Inode.writeData Layout.default.formatted (Layout.default.slot 2) 0 (fun _ => 7) 1).run
        (oneFileDisk 0) = (1, s') ∧ (Layout.default.inode s'.blocks 2).size.toNat = 1 ∧
      SameFile .default 3 (oneFileDisk 0) s' := by
  have inode := oneFileDisk_slot2 0
  obtain ⟨s', run, -, -, size, others⟩ := writeData_isolated .default (oneFileDisk_populated 0) (.inl rfl)
    (Nat.le_refl 1) (show 0 + 1 < 2147483648 by decide)
    (by rw [inode]; exact oneFileDisk_free) fun _ => 7
  rw [inode] at size
  exact ⟨s', run, size, others 3 (.inr rfl) (by decide)⟩

end Sbfs
