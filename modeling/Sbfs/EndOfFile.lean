import Sbfs.Ranges
import Sbfs.FailedGrowth

/-! # Reading at the end of a file

Successful resizes and writes keep the block map of an inode (`FileRun.inv`), so a read that
starts inside the file finds its blocks.  A read that starts at the end copies nothing, but
looks a block up first: the last one of the file if the file does not fill it, and otherwise
one behind the last, whose id is whatever is left in the inode or an index block. -/

namespace Sbfs

open Slot

/-- Runs of `resize` and `write_data` on one inode, each of which succeeds. -/
inductive FileRun (bm : Bitmap) (pos : Position) : DiskInode → Disk → DiskInode → Disk → Prop
  | start (d : DiskInode) (s : Disk) : FileRun bm pos d s d s
  | resize {d₀ d d' : DiskInode} {s₀ s s' : Disk} {newSize : Nat} {inode : Option Position}
      (before : FileRun bm pos d₀ s₀ d s) (small : newSize < 2147483648)
      (own : inode = none ∨ inode = some pos)
      (run : (d.resize newSize bm inode).run s = ((.kSuccess, d'), s')) : FileRun bm pos d₀ s₀ d' s'
  | write {d₀ d d' : DiskInode} {s₀ s s' : Disk} {offset len : Nat} {buf : Mem} {ret : Int}
      (before : FileRun bm pos d₀ s₀ d s) (len32 : len < 4294967296)
      (run : (d.writeData offset buf len).run s = ((ret, d'), s')) (success : 0 ≤ ret) :
      FileRun bm pos d₀ s₀ d' s'

/-- What such a run maintains. -/
structure FileInv (bm : Bitmap) (d : DiskInode) (s : Disk) : Prop where
  segment : bm.Segment s.count
  failId : s.count ≤ kFailId
  map : WellMapped bm d s.blocks
  small : d.size.toNat < 2147483648

section

variable {bm : Bitmap} {pos : Position} {d₀ d d' : DiskInode} {s₀ s s' : Disk} {newSize offset len : Nat}
  {inode : Option Position} {buf : Mem} {ret : Int}

/-- A resize that succeeded had enough free blocks. -/
theorem enough_of_success (inv : FileInv bm d s) (size32 : newSize < 4294967296)
    (run : (d.resize newSize bm inode).run s = ((.kSuccess, d'), s')) :
    growth d newSize ≤ (bm.freeIds s.blocks).length := by
  by_contra short
  obtain ⟨d'', s'', run', -⟩ := run_resize_spent inv.map inv.segment size32 (Nat.lt_of_not_le short) inode
  rw [run] at run'
  cases run'

theorem patchBlock_nothing (id off : Nat) (buf : Mem) :
    ∃ ok s', (DiskInode.patchBlock id off 0 buf).run s = (ok, s') ∧ s'.blocks = s.blocks ∧ s'.count = s.count := by
  by_cases onDevice : id < s.count
  · refine ⟨true, _, run_patchBlock onDevice, ?_, rfl⟩
    have same : (s.blocks id).blit off 0 buf = s.blocks id := Bytes.ext_get fun i inside => by
      rw [Bytes.get_blit _ _ inside, splice_zero]
    funext b
    by_cases here : b = id
    · rw [here, Store.put_blocks_same _ _ onDevice, same]
    · rw [Store.put_blocks_ne _ _ here]
  · exact ⟨false, s, run_patchBlock_past (Nat.le_of_not_lt onDevice), rfl, rfl⟩

/-- A write of no byte puts back the block that it has read. -/
theorem run_writeRange_none (buf : Mem) (l : Int) :
    ∃ ok s', (d.writeRange l l buf).run s = (ok, s') ∧ s'.blocks = s.blocks ∧ s'.count = s.count := by
  have empty : DiskInode.copyLen (DiskInode.blockRem l) (DiskInode.blockRem l) = 0 := by
    rw [DiskInode.copyLen, Int.sub_self]
    rfl
  simp only [DiskInode.writeRange, DevProg.run_bind, run_blockId_same, if_true, empty]
  exact patchBlock_nothing _ _ _

theorem FileInv.congr (inv : FileInv bm d s) (retimed : Retimed d d') (blocks : s'.blocks = s.blocks)
    (count : s'.count = s.count) : FileInv bm d' s' := by
  have size : d'.size = d.size := by rw [retimed]
  have owns : d'.Owns = d.Owns := by
    funext x
    rw [DiskInode.Owns, size, DiskInode.Owns]
  refine ⟨count ▸ inv.segment, count ▸ inv.failId, ?_, size ▸ inv.small⟩
  rw [WellMapped, owns, blocks]
  exact BlockMap.of_ids inv.map (slotId_pointers (by rw [retimed]) (by rw [retimed]) (by rw [retimed]) _)

theorem FileInv.resized (inv : FileInv bm d s) (low : pos.blockId < bm.startBlockId)
    (small : newSize < 2147483648) (own : inode = none ∨ inode = some pos)
    (run : (d.resize newSize bm inode).run s = ((.kSuccess, d'), s')) : FileInv bm d' s' := by
  have size32 : newSize < 4294967296 := by omega
  obtain ⟨d'', s'', run', resized⟩ := run_resize inv.map inv.segment size32
    (enough_of_success inv size32 run) (own_below own low)
  cases run.symm.trans run'
  have count := resized.touches.count
  refine ⟨count ▸ inv.segment, count ▸ inv.failId, resized.map, ?_⟩
  rw [resized.size]
  exact small

theorem FileInv.wrote (inv : FileInv bm d s) (len32 : len < 4294967296)
    (run : (d.writeData offset buf len).run s = ((ret, d'), s')) (success : 0 ≤ ret) : FileInv bm d' s' := by
  obtain ⟨d₁, s₁, run₁, retimed, quiet⟩ := run_updateMeta d 3 s
  have size₁ : d₁.size = d.size := by rw [retimed]
  have bound := inv.small
  by_cases empty : len = 0
  · simp only [DiskInode.writeData, DevProg.run_bind, run₁, empty, if_true, DevProg.run_pure] at run
    cases run
    exact inv.congr retimed quiet.quiet quiet.count
  -- past the end the call fails
  have inside : offset ≤ d.size.toNat := by
    by_contra past
    have early : d₁.size.toNat < offset := size₁ ▸ Nat.lt_of_not_le past
    simp only [DiskInode.writeData, DevProg.run_bind, run₁, empty, if_false, early, if_true,
      DevProg.run_pure] at run
    cases run
    cases success
  have outcome := writeData_ret (s := s) empty inside buf
  rw [run] at outcome
  -- a length that wraps leaves a negative result
  have sum : offset + len < 4294967296 := by
    by_contra wraps
    rw [cutLen_wraps inside len32 (by omega), int32, Nat.mod_eq_of_lt len32, if_neg (by omega)] at outcome
    dsimp only at outcome
    omega
  have cut := cutLen_eq inside sum
  by_cases atEnd : offset = d.size.toNat
  · -- nothing is written, but one block is read and put back
    have early : ¬ d₁.size.toNat < offset := by
      rw [size₁]
      omega
    have cut₁ : d₁.cutLen offset len = 0 := by
      rw [DiskInode.cutLen, size₁, ← DiskInode.cutLen, cut, transfer]
      omega
    obtain ⟨ok, s₂, run₂, blocks, count⟩ := run_writeRange_none (d := d₁) (s := s₁) buf (int32 offset)
    simp only [DiskInode.writeData, DevProg.run_bind, run₁, empty, if_false, early, cut₁, Nat.add_zero,
      run₂] at run
    have outcome : d' = d₁ ∧ s' = s₂ := by
      cases ok with
      | false =>
        cases run
        exact ⟨rfl, rfl⟩
      | true =>
        cases run
        exact ⟨rfl, rfl⟩
    obtain ⟨rfl, rfl⟩ := outcome
    exact inv.congr retimed (blocks.trans quiet.quiet) (count.trans quiet.count)
  · -- the range lies in the file, and the data blocks of the range are written
    have left : 0 < transfer d offset len := by
      rw [transfer]
      omega
    have inFile : offset + transfer d offset len ≤ d.size.toNat := by
      rw [transfer]
      omega
    have located := located_of_map inv.map inv.segment fun k owns => by
      have := dataBlocks_le d.size.toNat_lt
      simp only [DiskInode.Owns, Valid] at owns
      omega
    rw [run_writeData_cut (Nat.pos_of_ne_zero empty) left cut inFile] at run
    obtain ⟨ret', d'', s'', run', retimed', touches, -⟩ := run_diskWriteData buf located left inFile inv.failId
      fun k _ upper => by
        simp only [DiskInode.Owns, Valid, dataBlocks]
        omega
    cases run.symm.trans run'
    obtain ⟨evolved, -⟩ := Evolved.of_data (W := fun _ => False) inv.map inv.segment touches
    have after : FileInv bm d s' :=
      ⟨touches.count ▸ inv.segment, touches.count ▸ inv.failId, evolved.map, inv.small⟩
    exact after.congr retimed' rfl rfl

theorem FileRun.inv (run : FileRun bm pos d₀ s₀ d s) (low : pos.blockId < bm.startBlockId)
    (inv : FileInv bm d₀ s₀) : FileInv bm d s := by
  induction run with
  | start => exact inv
  | resize _ small own run ih => exact (ih inv).resized low small own run
  | write _ len32 run success ih => exact (ih inv).wrote len32 run success

/-! ## The last read -/

/-- `read_data` returns how many bytes there are and looks up blocks of the file only. -/
def ReadsToEnd (d : DiskInode) (s : Disk) (offset len : Nat) : Prop :=
  (∀ p ∈ d.visits offset len, p.inner < dataBlocks d.size.toNat) ∧
    ∀ buf, ((d.readData offset len buf).run s).1.1 = (transfer d offset len : Int)

/-- What is visited by a read at the end: one block, of which nothing is copied. -/
theorem visits_end (small : d.size.toNat < 2147483648) (sum : d.size.toNat + len < 4294967296) :
    d.visits d.size.toNat len = [⟨d.size.toNat / 4096, d.size.toNat % 4096, 0⟩] := by
  have cut := cutLen_eq (Nat.le_refl _) sum
  have none : transfer d d.size.toNat len = 0 := by
    rw [transfer]
    omega
  rw [DiskInode.visits, cut, none, DiskInode.pieces_low (by omega), if_pos (by rw [Nat.add_zero])]

/-- A read at the end of a file that does not fill its last block. -/
theorem run_readData_end (inv : FileInv bm d s) (some : 1 ≤ len) (sum : d.size.toNat + len < 4294967296)
    (partly : ¬ 4096 ∣ d.size.toNat) (buf : Mem) : ((d.readData d.size.toNat len buf).run s).1.1 = 0 := by
  have located := located_of_map inv.map inv.segment fun k owns => by
    have := dataBlocks_le d.size.toNat_lt
    simp only [DiskInode.Owns, Valid] at owns
    omega
  have last : d.Owns (data (d.size.toNat / 4096)) := by
    simp only [DiskInode.Owns, Valid, dataBlocks]
    omega
  obtain ⟨d₁, s₁, run₁, retimed, quiet⟩ := run_updateMeta d 1 s
  have located₁ := (located.after (quiet.mono fun _ => False.elim)).retimed retimed
  have size₁ : d₁.size = d.size := by rw [retimed]
  have empty : ¬ len = 0 := by omega
  have early : ¬ d₁.size.toNat < d.size.toNat := by
    rw [size₁]
    exact Nat.lt_irrefl _
  have cut : d₁.cutLen d.size.toNat len = d.cutLen d.size.toNat len := by
    rw [DiskInode.cutLen, size₁, ← DiskInode.cutLen]
  have none : d.cutLen d.size.toNat len = 0 := by
    rw [cutLen_eq (Nat.le_refl _) sum, transfer]
    omega
  have list := visits_end inv.small sum
  rw [DiskInode.visits, none] at list
  simp only [DiskInode.readData, DevProg.run_bind, run₁, empty, early, if_false, cut, none,
    DiskInode.readRange_eq, list, DiskInode.readPieces, located₁.run_blockId last,
    DevProg.run_readBlk_of_lt (located₁.onDevice _ last), DevProg.run_pure]
  rfl

end

/-- After any run of successful resizes and writes a read up to the end is right, except at the
very end of a file that fills its last block. -/
theorem read_at_end_iff (L : Layout) {pos : Position} (slot : SlotInside L.formatted pos)
    {d₀ d : DiskInode} {s₀ s : Disk} (io : L.areaEnd ≤ s₀.count) (failId : s₀.count ≤ kFailId)
    (empty : d₀.Empty) (run : FileRun L.formatted.dataBitmap pos d₀ s₀ d s) {offset len : Nat}
    (inside : offset ≤ d.size.toNat) (some : 1 ≤ len) (sum : offset + len < 4294967296) :
    ReadsToEnd d s offset len ↔ ¬ (offset = d.size.toNat ∧ 4096 ∣ d.size.toNat) := by
  have start : FileInv L.formatted.dataBitmap d₀ s₀ := by
    refine ⟨L.segment io, failId, (empty.history io).map, ?_⟩
    rw [empty.size]
    decide
  have inv := run.inv (L.slot_below slot) start
  have small := inv.small
  by_cases atEnd : offset = d.size.toNat
  · subst atEnd
    -- the one block that is asked for is the one in which the file ends, or the next if it ends on a boundary
    have visits := visits_end inv.small sum
    constructor
    · rintro ⟨looked, -⟩ ⟨-, aligned⟩
      have last := looked ⟨d.size.toNat / 4096, d.size.toNat % 4096, 0⟩ (by
        rw [visits]
        exact List.mem_singleton_self _)
      simp only [dataBlocks] at last
      omega
    · intro partly
      have partly : ¬ 4096 ∣ d.size.toNat := fun aligned => partly ⟨rfl, aligned⟩
      refine ⟨fun p member => ?_, fun buf => ?_⟩
      · rw [visits, List.mem_singleton] at member
        subst member
        simp only [dataBlocks]
        omega
      · rw [run_readData_end inv some sum partly, transfer]
        omega
  · have fits : FitsInt offset (transfer d offset len) := by
      refine .inl ?_
      rw [transfer]
      omega
    obtain ⟨visited, reads⟩ := readsExactly_of_fits inv.map inv.segment inv.failId (by omega) some sum fits
    refine iff_of_true ⟨fun p member => ?_, fun buf => ?_⟩ fun holds => atEnd holds.1
    · have inner : p.inner ∈ (d.visits offset len).map Piece.inner := List.mem_map_of_mem member
      rw [visited.inner, List.mem_range'_1] at inner
      simp only [transfer, dataBlocks] at inner ⊢
      omega
    · obtain ⟨ret, got, d', s', run, exact', -⟩ := reads buf
      rw [run]
      exact exact'

/-! ### An empty file that is resized -/

/-- `emptyFile` after a resize, and the disk with it. -/
def resizedFile (sizes : List Nat) : DiskInode × Disk :=
  sizes.foldl (fun r newSize =>
      let r := (r.1.resize newSize Layout.default.formatted.dataBitmap none).run r.2
      (r.1.2, r.2))
    (emptyFile, oneFileDisk 0)

/-- One more resize that succeeds. -/
theorem resizedFile_run (sizes : List Nat) (newSize : Nat) (small : newSize < 2147483648)
    (before : FileRun Layout.default.formatted.dataBitmap (Layout.default.formatted.getDiskInodePos 2)
      emptyFile (oneFileDisk 0) (resizedFile sizes).1 (resizedFile sizes).2)
    (success : (((resizedFile sizes).1.resize newSize Layout.default.formatted.dataBitmap none).run
      (resizedFile sizes).2).1.1 = .kSuccess) :
    FileRun Layout.default.formatted.dataBitmap (Layout.default.formatted.getDiskInodePos 2)
      emptyFile (oneFileDisk 0) (resizedFile (sizes ++ [newSize])).1 (resizedFile (sizes ++ [newSize])).2 := by
  have last : resizedFile (sizes ++ [newSize]) =
      let r := ((resizedFile sizes).1.resize newSize Layout.default.formatted.dataBitmap none).run
        (resizedFile sizes).2
      (r.1.2, r.2) := List.foldl_concat ..
  rw [last]
  refine before.resize small (.inl rfl) ?_
  rw [← success]

theorem resizedFile_grown : FileRun Layout.default.formatted.dataBitmap
    (Layout.default.formatted.getDiskInodePos 2) emptyFile (oneFileDisk 0)
    (resizedFile [100]).1 (resizedFile [100]).2 :=
  resizedFile_run [] _ (by decide) (.start _ _) (by decide +kernel)

/-- The end of a file of 100 bytes. -/
theorem read_at_end_iff_partBlock : ReadsToEnd (resizedFile [100]).1 (resizedFile [100]).2 100 1 :=
  (read_at_end_iff .default deepFile_slot (oneFileDisk_device 0) (show 4194304 ≤ 4294967295 by decide)
    emptyFile_empty resizedFile_grown (by decide +kernel) (by decide) (by decide)).mpr (by decide +kernel)

/-- The end of a file that had one block and has none left: its block is looked up. -/
theorem readData_end_fails :
    ¬ ∀ (L : Layout) (pos : Position), SlotInside L.formatted pos → ∀ (d₀ d : DiskInode) (s₀ s : Disk),
      L.areaEnd ≤ s₀.count → s₀.count ≤ kFailId → d₀.Empty → FileRun L.formatted.dataBitmap pos d₀ s₀ d s →
        ∀ offset len, offset ≤ d.size.toNat → 1 ≤ len → offset + len < 4294967296 → ReadsToEnd d s offset len := by
  intro always
  have grown : FileRun Layout.default.formatted.dataBitmap (Layout.default.formatted.getDiskInodePos 2)
      emptyFile (oneFileDisk 0) (resizedFile [4096]).1 (resizedFile [4096]).2 :=
    resizedFile_run [] _ (by decide) (.start _ _) (by decide +kernel)
  have shrunk := resizedFile_run _ 0 (by decide) grown (by decide +kernel)
  have reads := (always .default _ deepFile_slot _ _ _ _ (oneFileDisk_device 0)
    (show 4194304 ≤ 4294967295 by decide) emptyFile_empty shrunk 0 1 (Nat.zero_le _) (by decide) (by decide)).2
  have fails : (((resizedFile [4096, 0]).1.readData 0 1 fun _ => 0).run (resizedFile [4096, 0]).2).1.1 = -1 := by
    decide +kernel
  have success := reads fun _ => 0
  rw [show ([4096] ++ [0] : List Nat) = [4096, 0] from rfl, fails] at success
  omega

end Sbfs
