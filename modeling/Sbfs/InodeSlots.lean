import Sbfs.WriteData
import Mathlib.Order.CompletePartialOrder
import Mathlib.Order.Interval.Set.Defs

/-! # The slots of inodes

`getDiskInodePos` and `getDiskInodeId` for an inode area that starts anywhere.  Each id has a range
of bytes of its own inside one block, so `write_inode` is read back there and seen nowhere else. -/

namespace Sbfs

namespace SBFileSystem

variable {fs : SBFileSystem} {id id' : Nat}

/-- The position of the inode does not overflow. -/
structure Placed (fs : SBFileSystem) (id : Nat) : Prop where
  id32 : id < 4294967296
  fits : fs.inodeAreaStartBlock + id / 32 < 4294967296

/-- The bytes of the device that the `DiskInode` with this id takes. -/
def slotBytes (fs : SBFileSystem) (id : Nat) : Set Nat :=
  let pos := fs.getDiskInodePos id
  {i | 4096 * pos.blockId + pos.blockOffset ≤ i ∧ i < 4096 * pos.blockId + pos.blockOffset + 128}

theorem Placed.pos (placed : fs.Placed id) :
    fs.getDiskInodePos id = ⟨fs.inodeAreaStartBlock + id / 32, id % 32 * 128⟩ := by
  rw [getDiskInodePos, Nat.mod_eq_of_lt placed.fits]

theorem Placed.id_pos (placed : fs.Placed id) : fs.getDiskInodeId (fs.getDiskInodePos id) = id := by
  have id32 := placed.id32
  rw [placed.pos, getDiskInodeId, uint32]
  simp only
  omega

/-- A slot ends where its block does at the latest. -/
theorem slot_fits (fs : SBFileSystem) (id : Nat) : (fs.getDiskInodePos id).blockOffset + 128 ≤ 4096 := by
  simp only [getDiskInodePos]
  omega

/-- Two slots are in different blocks or one ends before the other begins. -/
theorem Placed.apart (placed : fs.Placed id) (placed' : fs.Placed id') (ne : id' ≠ id)
    (same : (fs.getDiskInodePos id').blockId = (fs.getDiskInodePos id).blockId) :
    (fs.getDiskInodePos id').blockOffset + 128 ≤ (fs.getDiskInodePos id).blockOffset ∨
      (fs.getDiskInodePos id).blockOffset + 128 ≤ (fs.getDiskInodePos id').blockOffset := by
  rw [placed.pos, placed'.pos] at same ⊢
  simp only at same ⊢
  omega

theorem Placed.disjoint (placed : fs.Placed id) (placed' : fs.Placed id') (ne : id' ≠ id) :
    Disjoint (fs.slotBytes id) (fs.slotBytes id') := by
  have fits := fs.slot_fits id
  have fits' := fs.slot_fits id'
  rw [Set.disjoint_left]
  rintro i ⟨lower, upper⟩ ⟨lower', upper'⟩
  by_cases same : (fs.getDiskInodePos id').blockId = (fs.getDiskInodePos id).blockId
  · have := placed.apart placed' ne same
    omega
  · omega

/-- The bytes of a slot are bytes of its block. -/
theorem slotBytes_inside {i : Nat} (member : i ∈ fs.slotBytes id) : i / 4096 = (fs.getDiskInodePos id).blockId := by
  have fits := fs.slot_fits id
  obtain ⟨lower, upper⟩ := member
  omega

end SBFileSystem

open SBFileSystem

section

variable {fs : SBFileSystem} {id id' : Nat} {s : Disk} {d : DiskInode}

/-- `write_inode` of one id, then `read_inode` of any. -/
theorem run_readInode_written (placed : fs.Placed id) (placed' : fs.Placed id')
    (onDevice : (fs.getDiskInodePos id).blockId < s.count) :
    ((readInode (fs.getDiskInodePos id')).run ((writeInode (fs.getDiskInodePos id) d).run s).2).1 =
      if id' = id then some d else ((readInode (fs.getDiskInodePos id')).run s).1 := by
  rw [run_writeInode d onDevice]
  by_cases self : id' = id
  · rw [if_pos self, self, run_readInode (by exact onDevice), Store.put_blocks_same _ _ onDevice,
      inodeIn_putInode _ _ (fs.slot_fits id)]
  rw [if_neg self]
  by_cases there : (fs.getDiskInodePos id').blockId < s.count
  · rw [run_readInode there, run_readInode (by exact there)]
    by_cases same : (fs.getDiskInodePos id').blockId = (fs.getDiskInodePos id).blockId
    · rw [same, Store.put_blocks_same _ _ onDevice,
        inodeIn_putInode_disjoint _ _ (placed.apart placed' self same)]
    · rw [Store.put_blocks_ne _ _ same]
  · have past := Nat.le_of_not_lt there
    rw [readInode, DevProg.run_bind, DevProg.run_bind, DevProg.run_readBlk_of_ge past,
      DevProg.run_readBlk_of_ge (by exact past)]
    rfl

end

/-- The slots of inodes are independent. -/
theorem inodeSlots_independent (fs : SBFileSystem) :
    (∀ id, fs.Placed id → fs.getDiskInodeId (fs.getDiskInodePos id) = id) ∧
    (∀ id id', fs.Placed id → fs.Placed id' → id' ≠ id → Disjoint (fs.slotBytes id) (fs.slotBytes id')) ∧
    (∀ id, fs.Placed id → ∀ i ∈ fs.slotBytes id, i / 4096 = (fs.getDiskInodePos id).blockId) ∧
    ∀ (s : Disk) (d : DiskInode) (id : Nat), fs.Placed id → (fs.getDiskInodePos id).blockId < s.count →
      ∃ s', (writeInode (fs.getDiskInodePos id) d).run s = (.kSuccess, s') ∧
        ((readInode (fs.getDiskInodePos id)).run s').1 = some d ∧
        ∀ id', fs.Placed id' → id' ≠ id →
          ((readInode (fs.getDiskInodePos id')).run s').1 = ((readInode (fs.getDiskInodePos id')).run s).1 := by
  refine ⟨fun id => Placed.id_pos, fun id id' placed placed' => placed.disjoint placed', fun id _ i => slotBytes_inside,
    fun s d id placed onDevice => ?_⟩
  have run := run_writeInode d onDevice
  have reads : ∀ id', fs.Placed id' → _ := fun id' placed' =>
    run_readInode_written (d := d) placed placed' onDevice
  rw [run] at reads
  refine ⟨_, run, ?_, fun id' placed' ne => ?_⟩
  · rw [reads id placed, if_pos rfl]
  · rw [reads id' placed', if_neg ne]

end Sbfs
