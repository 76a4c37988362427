import Sbfs.Allocator
import Sbfs.Format

/-! # Freeing an id outside the segment

`Bitmap::free` subtracts the offset of the segment without a check, so an id outside it
still names a bit: one of the block `freedBlock`, which need not belong to the bitmap.  The
call is harmless when the device has no such block, and otherwise it clears the bit
(`free_outside_iff`).  On the disk that `init_vfs` creates the block is always there
(`run_free_default`). -/

namespace Sbfs

namespace Bitmap

variable {bm : Bitmap} {s : Disk} {id : Nat}

/-- The id from the start of the segment on, in the unsigned arithmetic of the code. -/
def freedSlot (bm : Bitmap) (id : Nat) : Nat :=
  (id + 4294967296 - bm.dataSegmentOffset) % 4294967296

/-- The block in which `free` clears a bit. -/
def freedBlock (bm : Bitmap) (id : Nat) : Nat :=
  (bm.startBlockId + bm.freedSlot id / 32768) % 4294967296

theorem free_eq (bm : Bitmap) (id : Nat) : bm.free id = (do
    match ← DevProg.readBlk (bm.freedBlock id) with
    | none => return .kFail
    | some buf =>
      if ← DevProg.writeBlk (bm.freedBlock id)
          (clearWordBit buf (bm.freedSlot id % 32768 / 64) (bm.freedSlot id % 32768 % 64)) then
        return .kSuccess
      else return .kFail) := rfl

theorem run_free_missing (missing : s.count ≤ bm.freedBlock id) : (bm.free id).run s = (.kFail, s) := by
  rw [free_eq, DevProg.run_bind, DevProg.run_readBlk_of_ge missing]
  rfl

/-- If the block exists, the bit is cleared, whatever the block is used for. -/
theorem run_free_there (there : bm.freedBlock id < s.count) :
    (bm.free id).run s = (.kSuccess, s.put (bm.freedBlock id) (clearWordBit (s.blocks (bm.freedBlock id))
      (bm.freedSlot id % 32768 / 64) (bm.freedSlot id % 32768 % 64))) := by
  simp only [free_eq, DevProg.run_bind, DevProg.run_readBlk_of_lt there,
    DevProg.run_writeBlk_of_lt _ there, if_true, DevProg.run_pure]

/-- The bits of that block after the call. -/
theorem bit_free_there (there : bm.freedBlock id < s.count) (t : Nat) :
    (((bm.free id).run s).2.blocks (bm.freedBlock id)).bit t =
      (!decide (t = bm.freedSlot id % 32768) && (s.blocks (bm.freedBlock id)).bit t) := by
  rw [run_free_there there, s.put_blocks_same _ there, bit_clearWordBit _ (by omega) (by omega)]
  have same : 64 * (bm.freedSlot id % 32768 / 64) + bm.freedSlot id % 32768 % 64 =
      bm.freedSlot id % 32768 := by omega
  rw [same]

/-- For both bitmaps that `initBitmapAndBlock` places and every id outside the segment:
`free` fails and changes nothing if and only if the device has no block with the number
that it computes. -/
theorem free_outside_iff (sb : SuperBlock) (s : Disk) : ∀ bm,
    bm = (SBFileSystem.initBitmapAndBlock sb).inodeBitmap ∨
      bm = (SBFileSystem.initBitmapAndBlock sb).dataBitmap →
    ∀ id, id < 4294967296 → ¬ bm.InSegment id →
      ((((bm.free id).run s).1 = .kFail ∧ ((bm.free id).run s).2.blocks = s.blocks) ↔
        s.count ≤ bm.freedBlock id) := by
  intro bm _ id _ _
  constructor
  · rintro ⟨failed, -⟩
    by_contra there
    rw [run_free_there (Nat.not_le.mp there)] at failed
    cases failed
  · intro missing
    rw [run_free_missing missing]
    exact ⟨rfl, rfl⟩

end Bitmap

/-! ## The disk of `init_vfs` -/

/-- On the default disk no id is out of the reach of `free`. -/
theorem run_free_default {s : Disk} (image : s.count = Layout.default.totalBlocks) (bm : Bitmap)
    (placed : bm = Layout.default.formatted.inodeBitmap ∨ bm = Layout.default.formatted.dataBitmap)
    (id : Nat) : ((bm.free id).run s).1 = .kSuccess := by
  have start : bm.startBlockId ≤ 1026 := by
    rcases placed with rfl | rfl
    · rw [Layout.default.inodeBitmap_eq]
      decide
    · rw [Layout.default.dataBitmap_eq]
      decide
  have there : bm.freedBlock id < s.count := by
    have slot : bm.freedSlot id < 4294967296 := Nat.mod_lt _ (by decide)
    have total : Layout.default.totalBlocks = 4194304 := rfl
    rw [Bitmap.freedBlock]
    omega
  rw [Bitmap.run_free_there there]

/-- The default disk with every bit of every block set. -/
def setDisk : Disk := { blankImage with blocks := fun _ _ => 255 }

/-- Freeing the data block 0 succeeds, and clears a bit of block 132097, in the data area. -/
theorem free_zero_clears :
    let bm := Layout.default.formatted.dataBitmap
    ¬ bm.InSegment 0 ∧ ((bm.free 0).run setDisk).1 = .kSuccess ∧
      (setDisk.blocks 132097).bit 31615 = true ∧
      (((bm.free 0).run setDisk).2.blocks 132097).bit 31615 = false := by
  have target : Layout.default.formatted.dataBitmap.freedBlock 0 = 132097 := by decide
  have slot : Layout.default.formatted.dataBitmap.freedSlot 0 % 32768 = 31615 := by decide
  have there : Layout.default.formatted.dataBitmap.freedBlock 0 < setDisk.count := by
    rw [target]
    decide
  have bits := Bitmap.bit_free_there there 31615
  rw [target, slot] at bits
  refine ⟨?_, run_free_default rfl _ (.inr rfl) 0, by decide, bits⟩
  rintro ⟨lower, -⟩
  exact absurd lower (by decide)

/-- On a device of 4194304 blocks `free` of id 0 is not harmless. -/
theorem free_outside_iff_zero :
    ¬ ((((Layout.default.formatted.dataBitmap).free 0).run setDisk).1 = .kFail ∧
      (((Layout.default.formatted.dataBitmap).free 0).run setDisk).2.blocks = setDisk.blocks) :=
  fun harmless => absurd
    ((Bitmap.free_outside_iff (.format 4194304 1) setDisk _ (.inr rfl) 0 (by decide)
      (fun inside => absurd inside.1 (by decide))).mp harmless) (by decide)

end Sbfs
