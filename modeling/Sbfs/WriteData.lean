import Sbfs.FileBytes

/-! # `Inode::write_data`

A write first grows the file, then copies the bytes block by block, then saves the inode.
The code drops the result of the growth, so a write that runs out of blocks goes on with a
block map that is filled in part (`writeData_safe`). -/

namespace Sbfs

open Slot

theorem run_count {α : Type} (p : Prog α) (s : Disk) : (p.run s).2.count = s.count :=
  DevProg.interp_invariant (h := Store.handler) (fun _ t (h : t.count = s.count) => h) (fun _ _ _ h => h)
    (fun _ _ h => h) (fun _ h => h) (fun _ h => h) p s rfl

theorem run_readInode {pos : Position} {s : Disk} (onDevice : pos.blockId < s.count) :
    (readInode pos).run s = (some (inodeIn (s.blocks pos.blockId) pos.blockOffset), s) := by
  simp only [readInode, DevProg.run_bind, DevProg.run_readBlk_of_lt onDevice, DevProg.run_pure]

namespace Inode

variable (fs : SBFileSystem)

/-- The first part of `write_data`: grow the file when the write ends behind it. -/
def growFor (d : DiskInode) (offset size : Nat) : Prog (Ret × DiskInode) :=
  if d.size.toNat < (offset + size) % 4294967296 then
    d.resize ((offset + size) % 4294967296) fs.dataBitmap none
  else pure (.kSuccess, d)

/-- The rest of `write_data`: write the bytes and save the inode. -/
def store (pos : Position) (d : DiskInode) (offset : Nat) (buf : Mem) (size : Nat) : Prog Int := do
  let (len, d) ← d.writeData offset buf size
  if len = -1 then return -1
  else
    match ← writeInode pos d with
    | .kFail => return -1
    | .kSuccess => return len

variable {fs} {pos : Position} {s : Disk} {d : DiskInode} {offset size : Nat} {buf : Mem}

theorem run_writeData_parts (onDevice : pos.blockId < s.count)
    (here : inodeIn (s.blocks pos.blockId) pos.blockOffset = d) :
    (writeData fs pos offset buf size).run s =
      (store pos ((growFor fs d offset size).run s).1.2 offset buf size).run
        ((growFor fs d offset size).run s).2 := by
  simp only [writeData, growFor, DevProg.run_bind, run_readInode onDevice, here]
  by_cases grows : d.size.toNat < (offset + size) % 4294967296
  · rw [if_pos grows, if_pos grows]
    exact DevProg.run_bind _ _ _
  · rw [if_neg grows, if_neg grows]
    rfl

theorem run_store (onDevice : pos.blockId < s.count) {len : Int} {d₂ : DiskInode} {s₂ : Disk}
    (written : (d.writeData offset buf size).run s = ((len, d₂), s₂)) :
    (store pos d offset buf size).run s = if len = -1 then (-1, s₂)
      else (len, s₂.put pos.blockId (putInode (s₂.blocks pos.blockId) pos.blockOffset d₂)) := by
  have count : s₂.count = s.count := (congrArg (·.2.count) written).symm.trans (run_count _ _)
  simp only [store, DevProg.run_bind, written]
  by_cases failed : len = -1
  · simp only [failed, if_true, DevProg.run_pure]
  · simp only [failed, if_false, DevProg.run_bind,
      run_writeInode d₂ (show pos.blockId < s₂.count by omega), DevProg.run_pure]

end Inode

/-! ## Enough blocks -/

/-- Block `b` of the store `s₁` is an allocated data block of `d₁`, and it was free or the
same block of the file before, in the store `s` where the file was `d`. -/
def FileBlock (bm : Bitmap) (d : DiskInode) (s : Disk) (d₁ : DiskInode) (s₁ : Disk) (b : Nat) : Prop :=
  bm.Used s₁.blocks b ∧ ∃ k, d₁.Owns (data k) ∧ b = d₁.slotId s₁.blocks (data k) ∧
    (bm.Used s.blocks b → d.Owns (data k) ∧ b = d.slotId s.blocks (data k))

/-- What a write must not do to the disk. -/
structure WriteSafe (fs : SBFileSystem) (pos : Position) (d : DiskInode) (s : Disk) (offset : Nat)
    (buf : Mem) (size : Nat) : Prop where
  /-- The bytes, which `DiskInode::write_data` writes after the growth, go into data blocks
  of the file. -/
  bytes : ∀ g s₁, (Inode.growFor fs d offset size).run s = (g, s₁) →
    Touches (FileBlock fs.dataBitmap d s g.2 s₁) s₁ ((g.2.writeData offset buf size).run s₁).2
  /-- Without enough free blocks the write fails, and the inode on the device stays. -/
  refuses : (fs.dataBitmap.freeIds s.blocks).length < growth d (offset + size) →
    ∃ s', (Inode.writeData fs pos offset buf size).run s = (-1, s') ∧
      inodeIn (s'.blocks pos.blockId) pos.blockOffset = d

section

variable {fs : SBFileSystem} {pos : Position} {s : Disk} {d : DiskInode} {offset size : Nat} {buf : Mem}

/-- The growth goes to the end of the write as a `uint32_t`. -/
theorem run_growFor_wrapped (offset size : Nat) (map : WellMapped fs.dataBitmap d s.blocks)
    (segment : fs.dataBitmap.Segment s.count)
    (enough : growth d ((offset + size) % 4294967296) ≤ (fs.dataBitmap.freeIds s.blocks).length) :
    ∃ d₁ s₁, (Inode.growFor fs d offset size).run s = ((.kSuccess, d₁), s₁) ∧
      Resized fs.dataBitmap (max d.size.toNat ((offset + size) % 4294967296)) none d s d₁ s₁ := by
  rw [Inode.growFor]
  generalize stop : (offset + size) % 4294967296 = e at enough ⊢
  have below : ∀ p, (none : Option Position) = some p → p.blockId < fs.dataBitmap.startBlockId :=
    fun p none => by cases none
  by_cases grows : d.size.toNat < e
  · rw [if_pos grows, Nat.max_eq_right (by omega)]
    exact run_resize map segment (by omega) enough below
  · rw [if_neg grows, Nat.max_eq_left (by omega)]
    refine ⟨d, s, rfl, resized_same ⟨rfl, rfl, rfl, ⟨rfl, rfl, rfl⟩, fun _ => rfl⟩ map rfl (.refl _ _) below
      segment fun p none => by cases none⟩

theorem run_growFor (map : WellMapped fs.dataBitmap d s.blocks) (segment : fs.dataBitmap.Segment s.count)
    (range : offset + size < 4294967296)
    (enough : growth d (offset + size) ≤ (fs.dataBitmap.freeIds s.blocks).length) :
    ∃ d₁ s₁, (Inode.growFor fs d offset size).run s = ((.kSuccess, d₁), s₁) ∧
      Resized fs.dataBitmap (max d.size.toNat (offset + size)) none d s d₁ s₁ := by
  rw [← Nat.mod_eq_of_lt range] at enough ⊢
  have grown := run_growFor_wrapped _ _ map segment enough
  simpa only [Nat.mod_mod] using grown

theorem writeSafe_of_enough (pos : Position) (buf : Mem) (map : WellMapped fs.dataBitmap d s.blocks)
    (segment : fs.dataBitmap.Segment s.count) (failId : s.count ≤ kFailId)
    (range : offset + size < 4294967296)
    (enough : growth d (offset + size) ≤ (fs.dataBitmap.freeIds s.blocks).length) :
    WriteSafe fs pos d s offset buf size := by
  refine ⟨fun g s₁ run => ?_, fun short => absurd enough (by omega)⟩
  obtain ⟨d₁, s₁', run', resized⟩ := run_growFor map segment range enough
  rw [run', Prod.mk.injEq] at run
  obtain ⟨rfl, rfl⟩ := run
  have segment₁ : fs.dataBitmap.Segment s₁'.count := resized.touches.count ▸ segment
  have bound := dataBlocks_le d₁.size.toNat_lt
  have owned : ∀ k, d₁.Owns (data k) →
      FileBlock fs.dataBitmap d s d₁ s₁' (d₁.slotId s₁'.blocks (data k)) := by
    intro k owns
    refine ⟨resized.map.used _ owns, k, owns, rfl, fun used => ?_⟩
    by_cases old : d.Owns (data k)
    · exact ⟨old, resized.keeps _ old owns⟩
    · exact absurd used (resized.fresh _ owns old)
  by_cases empty : size = 0
  · obtain ⟨d₂, s₂, run₂, -, quiet⟩ := run_updateMeta d₁ 3 s₁'
    simp only [DiskInode.writeData, DevProg.run_bind, run₂, empty, if_true, DevProg.run_pure]
    exact quiet.mono fun _ => False.elim
  · have located := located_of_map resized.map segment₁ fun k owns => by
      simp only [DiskInode.Owns, Valid] at owns
      omega
    obtain ⟨ret, d₂, s₂, run₂, -, touches, -⟩ := run_diskWriteData buf located
      (by omega) (resized.size ▸ Nat.le_max_right _ _)
      (resized.touches.count ▸ failId) fun k _ upper => by
        rw [DiskInode.Owns, resized.size]
        simp only [Valid, dataBlocks]
        omega
    rw [run₂]
    refine touches.mono ?_
    rintro b ⟨k, owns, rfl⟩
    exact owned k owns

/-! ## Too few blocks -/

/-- The loop over `direct` runs out of blocks: the pointers are still blocks of the device. -/
theorem run_allocDirect_short {bm : Bitmap} {n i : Nat} (segment : bm.Segment s.count) (bound : n ≤ 23 - i)
    (short : (bm.freeIds s.blocks).length < n) (onDevice : ∀ k, k < 23 → d.directAt k < s.count) :
    ∃ d' s', (DiskInode.allocEach bm DiskInode.setDirect n i d).run s = ((.kFail, d'), s') ∧
      d'.size = d.size ∧ s'.count = s.count ∧ ∀ k, k < 23 → d'.directAt k < s'.count := by
  induction n generalizing i d s with
  | zero => omega
  | succ n ih =>
    cases free : bm.freeIds s.blocks with
    | nil =>
      refine ⟨d, s, ?_, rfl, rfl, onDevice⟩
      simp only [DiskInode.allocEach, DevProg.run_bind, Bitmap.run_alloc_full segment.toFits free,
        if_true, DevProg.run_pure]
    | cons id ids =>
      obtain ⟨id, s₁, run, alloced⟩ := run_alloc segment (by rw [free]; simp)
      have small := (segment.bound alloced.inSegment).2
      have count := alloced.touches.count
      have fewer := short
      rw [alloced.free, List.length_cons] at fewer
      have onDevice₁ : ∀ k, k < 23 → (d.setDirect i id).directAt k < s₁.count := by
        intro k low
        rw [DiskInode.directAt_setDirect (by omega) (by omega), count]
        split
        · exact small.1
        · exact onDevice k low
      obtain ⟨d', s', rest, size, count', onDevice'⟩ :=
        ih (i := i + 1) (alloced.segment segment) (by omega) (by omega) onDevice₁
      refine ⟨d', s', ?_, size, count'.trans count, onDevice'⟩
      simp only [DiskInode.allocEach, DevProg.run_bind, run, alloced.ne_kFail segment, if_false, rest]

/-- The new size needs direct blocks only, and the pointers of the new blocks are still 0. -/
def Bare (d : DiskInode) (newSize : Nat) : Prop :=
  dataBlocks newSize ≤ 23 ∧ ∀ k, dataBlocks d.size.toNat ≤ k → k < 23 → d.directAt k = 0

theorem growth_direct {newSize : Nat} (direct : dataBlocks newSize ≤ 23) :
    growth d newSize = dataBlocks newSize - dataBlocks d.size.toNat := by
  rw [growth, growSlots, if_neg (by omega), if_neg (by omega), List.append_nil, List.append_nil,
    List.length_map, List.length_range', Nat.min_eq_left direct]

theorem run_resize_short {bm : Bitmap} {newSize : Nat} (map : WellMapped bm d s.blocks)
    (segment : bm.Segment s.count) (size32 : newSize < 4294967296) (bare : Bare d newSize)
    (short : (bm.freeIds s.blocks).length < growth d newSize) :
    ∃ ret d' s', (d.resize newSize bm none).run s = ((ret, d'), s') ∧ d'.size.toNat = newSize ∧
      s'.count = s.count ∧ ∀ k, k < 23 → d'.directAt k < s'.count := by
  obtain ⟨d₁, s₁, run₁, retimed, quiet⟩ := run_updateMeta d 7 s
  generalize hd₂ : ({ d₁ with size := UInt32.ofNat newSize } : DiskInode) = d₂
  have size₂ : d₂.size.toNat = newSize := by
    rw [← hd₂]
    simp [Nat.mod_eq_of_lt size32]
  have pointers : ∀ k, d₂.directAt k = d.directAt k := fun k => by
    rw [← hd₂, retimed]
    rfl
  rw [growth_direct bare.1] at short
  have grow : dataBlocks d.size.toNat < dataBlocks newSize := by omega
  have oldSize : d₁.size = d.size := by rw [retimed]
  have other : ¬ DiskInode.totalBlocks d.size.toNat = DiskInode.totalBlocks newSize :=
    fun eq => (Nat.ne_of_lt grow) (totalBlocks_eq.mp eq)
  have notLess : ¬ DiskInode.totalBlocks newSize < DiskInode.totalBlocks d.size.toNat :=
    fun less => Nat.lt_asymm grow (totalBlocks_lt.mp less)
  have onDevice : ∀ k, k < 23 → d₂.directAt k < s₁.count := by
    intro k low
    rw [quiet.count, pointers]
    by_cases old : k < dataBlocks d.size.toNat
    · rw [← DiskInode.slotId_direct (D := s.blocks) low]
      exact (segment.bound (map.used (data k) old).1).2.1
    · rw [bare.2 k (by omega) low]
      have := segment.onDevice
      have := segment.high
      omega
  have direct := bare.1
  obtain ⟨d', s', run₂, size, count, onDevice'⟩ := run_allocDirect_short
    (n := min (dataBlocks newSize) 23 - dataBlocks d.size.toNat) (i := dataBlocks d.size.toNat)
    (quiet.count ▸ segment) (by omega) (by rw [quiet.quiet]; omega) onDevice
  refine ⟨.kFail, d', s', ?_, by rw [size, size₂], count.trans quiet.count, onDevice'⟩
  simp only [DiskInode.resize, DevProg.run_bind, run₁, oldSize, other, hd₂, if_false, notLess,
    DiskInode.increase, run₂, DevProg.run_pure]

theorem not_writeSafe_of_short (map : WellMapped fs.dataBitmap d s.blocks)
    (segment : fs.dataBitmap.Segment s.count) (low : pos.blockId < fs.dataBitmap.startBlockId)
    (here : inodeIn (s.blocks pos.blockId) pos.blockOffset = d)
    (failId : s.count ≤ kFailId) (range : offset + size < 4294967296)
    (simple : size = 0 ∨ Bare d (offset + size))
    (short : (fs.dataBitmap.freeIds s.blocks).length < growth d (offset + size)) :
    ¬ WriteSafe fs pos d s offset buf size := by
  intro safe
  have onDevice : pos.blockId < s.count := by
    have := segment.onDevice
    omega
  obtain ⟨s', fails, -⟩ := safe.refuses short
  rw [Inode.run_writeData_parts onDevice here] at fails
  obtain ⟨len, success, d₂, s₂, run⟩ : ∃ len : Int, len ≠ -1 ∧ ∃ d₂ s₂,
      ((((Inode.growFor fs d offset size).run s).1.2.writeData offset buf size).run
        ((Inode.growFor fs d offset size).run s).2) = ((len, d₂), s₂) := by
    by_cases empty : size = 0
    · generalize (Inode.growFor fs d offset size).run s = grown
      obtain ⟨d₂, s₂, run₂, -, -⟩ := run_updateMeta grown.1.2 3 grown.2
      refine ⟨0, by decide, d₂, s₂, ?_⟩
      simp only [DiskInode.writeData, DevProg.run_bind, run₂, empty, if_true, DevProg.run_pure]
    · have bare := simple.resolve_left empty
      have direct := bare.1
      obtain ⟨ret, d₁, s₁, run₁, size₁, count, pointers⟩ := run_resize_short map segment range bare short
      have grows : d.size.toNat < offset + size := by
        by_contra inside
        rw [growth_shrink (by simp only [dataBlocks]; omega)] at short
        omega
      rw [Inode.growFor, Nat.mod_eq_of_lt range, if_pos grows, run₁]
      simp only [dataBlocks] at direct
      obtain ⟨len, d₂, s₂, run₂, -, -, good⟩ := run_diskWriteData buf (located_direct pointers (by omega))
        (show 0 < size by omega) (Nat.le_of_eq size₁.symm) (count ▸ failId) fun k _ upper => by omega
      obtain ⟨rfl, -⟩ := good (.inl (by omega))
      exact ⟨size, by omega, d₂, s₂, run₂⟩
  rw [Inode.run_store (by rw [run_count]; exact onDevice) run, if_neg success] at fails
  exact success (congrArg Prod.fst fails)

end

/-- With enough free blocks a write is safe.  Without, it is not, when it writes no byte or
reaches direct blocks only. -/
theorem writeData_safe (L : Layout) {pos : Position} (slot : SlotInside L.formatted pos) {s : Disk}
    (io : L.areaEnd ≤ s.count) (failId : s.count ≤ kFailId) {d : DiskInode}
    (here : inodeIn (s.blocks pos.blockId) pos.blockOffset = d)
    (map : WellMapped L.formatted.dataBitmap d s.blocks) {offset size : Nat}
    (range : offset + size ≤ 4294967295) (buf : Mem) :
    (growth d (offset + size) ≤ (L.formatted.dataBitmap.freeIds s.blocks).length →
      WriteSafe L.formatted pos d s offset buf size) ∧
    (size = 0 ∨ Bare d (offset + size) →
      (WriteSafe L.formatted pos d s offset buf size ↔
        growth d (offset + size) ≤ (L.formatted.dataBitmap.freeIds s.blocks).length)) := by
  have segment := L.segment io
  have range' : offset + size < 4294967296 := by omega
  have safe := writeSafe_of_enough pos buf map segment failId range'
  refine ⟨safe, fun simple => ⟨fun isSafe => ?_, safe⟩⟩
  by_contra short
  exact not_writeSafe_of_short map segment (L.slot_below slot) here failId range' simple (by omega) isSafe

/-! ### One empty file -/

/-- The default layout with `emptyFile` in slot 2 and every byte of the data bitmap `fill`. -/
def oneFileDisk (fill : UInt8) : Disk where
  count := 4194304
  blocks b := if b = 2 then putInode Bytes.zero 256 emptyFile
    else if b < 1153 then fun _ => fill else Bytes.zero
  writes := []
  clock _ := 0
  syncs _ := true

theorem oneFileDisk_bit {fill : UInt8} {t : Nat} (inside : t < 127 * 32768) :
    Layout.default.formatted.dataBitmap.bit (oneFileDisk fill).blocks t = fill.toNat.testBit (t % 8) := by
  have start : Layout.default.dataBitmapStart = 1026 := rfl
  have block : (oneFileDisk fill).blocks (1026 + t / 32768) = fun _ => fill := by
    simp only [oneFileDisk]
    rw [if_neg (by omega), if_pos (by omega)]
  rw [Layout.dataBitmap_eq]
  simp only [Bitmap.bit, start]
  rw [block, const_bit (by omega)]
  congr 1
  omega

theorem oneFileDisk_full : Layout.default.formatted.dataBitmap.freeIds (oneFileDisk 255).blocks = [] := by
  refine List.eq_nil_iff_forall_not_mem.mpr fun id free => ?_
  have blocks : Layout.default.dataBitmapBlocks = 127 := rfl
  obtain ⟨⟨lower, upper⟩, clear⟩ := Bitmap.mem_freeIds.mp free
  rw [Layout.dataBitmap_eq, Bitmap.capacity, blocks] at upper
  rw [oneFileDisk_bit (by rw [Layout.dataBitmap_eq]; simp only at *; omega),
    testBit_ones (Nat.mod_lt _ (by decide))] at clear
  cases clear

theorem oneFileDisk_free :
    1 ≤ (Layout.default.formatted.dataBitmap.freeIds (oneFileDisk 0).blocks).length := by
  refine List.length_pos_of_mem (a := 1153) (Bitmap.mem_freeIds.mpr ⟨?_, ?_⟩)
  · rw [Layout.dataBitmap_eq]
    exact ⟨by decide, by decide⟩
  · have offset : Layout.default.formatted.dataBitmap.dataSegmentOffset = 1153 := by
      rw [Layout.dataBitmap_eq]
      rfl
    rw [offset, oneFileDisk_bit (by decide)]
    rfl

theorem oneFileDisk_device (fill : UInt8) : Layout.default.areaEnd ≤ (oneFileDisk fill).count :=
  show Layout.default.areaEnd ≤ 4194304 by decide

theorem oneFileDisk_inode (fill : UInt8) :
    inodeIn ((oneFileDisk fill).blocks (Layout.default.formatted.getDiskInodePos 2).blockId)
      (Layout.default.formatted.getDiskInodePos 2).blockOffset = emptyFile := by
  have here : (oneFileDisk fill).blocks (Layout.default.formatted.getDiskInodePos 2).blockId =
      putInode Bytes.zero 256 emptyFile := rfl
  have offset : (Layout.default.formatted.getDiskInodePos 2).blockOffset = 256 := by decide
  rw [here, offset]
  exact inodeIn_putInode _ _ (by decide)

theorem emptyFile_empty : emptyFile.Empty := ⟨rfl, rfl, rfl, rfl⟩

theorem emptyFile_bare : Bare emptyFile (0 + 1) :=
  ⟨by decide, fun k _ low => by simp [DiskInode.directAt, emptyFile, low]⟩

/-- Writing the first byte of a file while there are free blocks. -/
theorem writeData_safe_emptyFile :
    WriteSafe Layout.default.formatted (Layout.default.formatted.getDiskInodePos 2) emptyFile
      (oneFileDisk 0) 0 (fun _ => 7) 1 :=
  have enough : growth emptyFile (0 + 1) ≤
      (Layout.default.formatted.dataBitmap.freeIds (oneFileDisk 0).blocks).length := oneFileDisk_free
  (writeData_safe .default deepFile_slot (oneFileDisk_device 0) (show 4194304 ≤ 4294967295 by decide)
    (oneFileDisk_inode 0) (emptyFile_empty.history (oneFileDisk_device 0)).map (by decide) _).1 enough

/-- On a full disk the first byte of a file is written although there is no block for it. -/
theorem writeData_full :
    ¬ ∀ (L : Layout) (pos : Position), SlotInside L.formatted pos →
      ∀ (s : Disk), L.areaEnd ≤ s.count → s.count ≤ kFailId →
      ∀ (d : DiskInode), inodeIn (s.blocks pos.blockId) pos.blockOffset = d → d.type = kFile →
        WellMapped L.formatted.dataBitmap d s.blocks →
      ∀ offset size, offset + size ≤ 4294967295 → ∀ buf,
        WriteSafe L.formatted pos d s offset buf size := by
  intro always
  have map := (emptyFile_empty.history (oneFileDisk_device 255)).map
  have count : (oneFileDisk 255).count ≤ kFailId := show 4194304 ≤ 4294967295 by decide
  refine not_writeSafe_of_short map (Layout.default.segment (oneFileDisk_device 255))
    (Layout.default.slot_below deepFile_slot) (oneFileDisk_inode 255) count (by decide)
    (.inr emptyFile_bare) ?_ (always .default _ deepFile_slot _ (oneFileDisk_device 255) count _
      (oneFileDisk_inode 255) rfl map 0 1 (by decide) fun _ => 7)
  rw [oneFileDisk_full]
  decide

end Sbfs
