import Sbfs.FileSteps
import Sbfs.FileTree

/-! # The bytes of files

`contentOf` is the list of the bytes of a file.  On a file that has its blocks to itself `read_data`,
`write_data` and `resize` do to this list what `ReadsAs`, `WritesAs` and `Cut` say. -/

namespace Sbfs

open Slot

namespace DiskInode

/-- The bytes of a file. -/
def contentOf (d : DiskInode) (D : Nat → Block) : List UInt8 := (List.range d.size.toNat).map (d.byte D)

variable {d d' : DiskInode} {D D' : Nat → Block} {i : Nat}

@[simp] theorem length_contentOf (d : DiskInode) (D : Nat → Block) : (d.contentOf D).length = d.size.toNat := by
  rw [contentOf, List.length_map, List.length_range]

theorem getElem?_contentOf (inside : i < d.size.toNat) : (d.contentOf D)[i]? = some (d.byte D i) := by
  rw [contentOf, List.getElem?_map, List.getElem?_range inside, Option.map_some]

theorem contentOf_congr (size : d'.size = d.size) (bytes : ∀ i, i < d.size.toNat → d'.byte D' i = d.byte D i) :
    d'.contentOf D' = d.contentOf D := by
  rw [contentOf, contentOf, size]
  exact List.map_congr_left fun i member => bytes i (List.mem_range.mp member)

end DiskInode

section

variable {L : Layout} {s s' : Disk} {live : Nat → Prop} {n offset size : Nat} {buf : Mem}

/-- `Inode::read_data`. -/
theorem Populated.readsAs (state : Populated L s live) (here : live n) {r : Int × Mem}
    (run : (Inode.readData (L.slot n) offset buf size).run s = (r, s')) :
    ReadsAs ((L.inode s.blocks n).contentOf s.blocks) offset buf size r := by
  intro some start small
  rw [DiskInode.length_contentOf] at start
  obtain ⟨d', s'', run', -⟩ := Inode.run_readData (d := L.inode s.blocks n) rfl (Layout.slot_low (state.slots n here))
    (state.volume.map n here) state.volume.segment some start (.inl (by omega)) state.failId (by omega) buf
  cases run.symm.trans run'
  rw [DiskInode.length_contentOf]
  refine ⟨rfl, fun i => ?_⟩
  dsimp only
  by_cases inside : i < min size ((L.inode s.blocks n).size.toNat - offset)
  · have inside' : offset + i < (L.inode s.blocks n).size.toNat := by omega
    rw [if_pos inside, splice_inside (Nat.zero_le i) (by omega), DiskInode.getElem?_contentOf inside', Option.getD_some]
    rfl
  · rw [if_neg inside, splice_outside (by omega)]

/-- `Inode::write_data` with enough blocks. -/
theorem Populated.writesAs (state : Populated L s live) (here : live n)
    (enough : growth (L.inode s.blocks n) ((offset + size) % 4294967296) ≤
      (L.formatted.dataBitmap.freeIds s.blocks).length) {ret : Int}
    (run : (Inode.writeData L.formatted (L.slot n) offset buf size).run s = (ret, s')) :
    WritesAs ((L.inode s.blocks n).contentOf s.blocks) offset buf size ret
      ((L.inode s'.blocks n).contentOf s'.blocks) := by
  intro small
  rw [Nat.mod_eq_of_lt (by omega)] at enough
  have slotId := state.slots n here
  obtain ⟨d', s'', run', written, saved⟩ := Inode.run_writeData_any (d := L.inode s.blocks n) rfl (Layout.slot_low slotId)
    (state.volume.map n here) state.volume.segment state.failId small enough buf
  cases run.symm.trans run'
  obtain rfl : L.inode s'.blocks n = d' := Layout.inode_saved slotId saved
  have bytes := written.bytes
  have length := written.size
  constructor
  case left => rfl
  case right =>
    constructor
    case length => rw [DiskInode.length_contentOf, DiskInode.length_contentOf, length]
    case inside =>
      intro i inside
      have inside' : offset + i < (L.inode s'.blocks n).size.toNat := by omega
      rw [DiskInode.getElem?_contentOf inside', bytes _ inside', splice_inside (by omega) (by omega),
        Nat.add_sub_cancel_left]
    case outside =>
      intro i old apart
      rw [DiskInode.length_contentOf] at old
      have inside' : i < (L.inode s'.blocks n).size.toNat := by omega
      have owns := DiskInode.owns_data old
      have same : (L.inode s'.blocks n).ids s'.blocks (i / 4096) = (L.inode s.blocks n).ids s.blocks (i / 4096) :=
        written.keeps _ owns
      rw [DiskInode.getElem?_contentOf inside', DiskInode.getElem?_contentOf old, bytes _ inside',
        splice_outside (by omega), byteAt, same]
      rfl

/-- `Inode::resize` with enough blocks. -/
theorem Populated.cut (state : Populated L s live) (here : live n) (file : (L.inode s.blocks n).type = kFile)
    {newSize : Nat} (small : newSize < 4294967296)
    (harmless : Strays (L.inode s.blocks n) newSize → strayTarget newSize = 0)
    (enough : growth (L.inode s.blocks n) newSize ≤ (L.formatted.dataBitmap.freeIds s.blocks).length) {ret : Ret}
    (run : (Inode.resize L.formatted (L.slot n) newSize).run s = (ret, s')) :
    WorkedOn L live n s s' ∧ ret = .kSuccess ∧
      Cut ((L.inode s.blocks n).contentOf s.blocks) newSize ((L.inode s'.blocks n).contentOf s'.blocks) := by
  have low := Layout.slot_low (state.slots n here)
  obtain ⟨worked, resized⟩ := WorkedOn.resized state here file small harmless enough run
  obtain ⟨d', s'', run', -⟩ := run_inodeResize rfl file (state.volume.map n here) state.volume.segment small enough low
  have length := resized.size
  refine ⟨worked, congrArg Prod.fst (run.symm.trans run'), ?_, fun i old new => ?_⟩
  · rw [DiskInode.length_contentOf, length]
  · rw [DiskInode.length_contentOf] at old
    rw [DiskInode.getElem?_contentOf (by omega), DiskInode.getElem?_contentOf old,
      resized.bytes state.volume.segment (fun pos is => by cases is; exact low) old new]

end

end Sbfs
