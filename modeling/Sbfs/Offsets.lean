import Sbfs.Isolation
import Sbfs.Vfs

/-! # Offsets

`sb_read` and `sb_write` take an `off_t` and pass it on as a `uint32_t`; the end of the
range is a sum of two `uint32_t`, and `DiskInode` counts blocks in `int`.  `OffsetKept` says
for which ranges a call does what was asked, or fails before it touches a byte of the file
(`offsets_honoured_iff`). -/

namespace Sbfs

open Slot ReqProg

/-! ## The file after a write -/

section

variable {bm : Bitmap} {d d₁ d₂ : DiskInode} {s s₁ s₂ s₃ : Disk} {newSize i : Nat} {pos : Position}

/-- The data blocks of an inode, by inner id. -/
def DiskInode.DataBlock (d : DiskInode) (D : Nat → Block) (b : Nat) : Prop :=
  Listed (fun k => d.Owns (data k)) (d.ids D) b

theorem Resized.located (resized : Resized bm newSize none d s d₁ s₁) (segment : bm.Segment s.count) :
    Located d₁ s₁ (fun k => d₁.Owns (data k)) (d₁.ids s₁.blocks) := by
  have bound := dataBlocks_le d₁.size.toNat_lt
  have segment₁ : bm.Segment s₁.count := resized.touches.count ▸ segment
  exact located_of_map resized.map segment₁ fun k owns => by
    simp only [DiskInode.Owns, Valid] at owns
    omega

theorem Resized.ids_inj (resized : Resized bm newSize none d s d₁ s₁) (j k : Nat)
    (ownsJ : d₁.Owns (data j)) (ownsK : d₁.Owns (data k))
    (same : d₁.ids s₁.blocks j = d₁.ids s₁.blocks k) : j = k := by
  have eq := resized.map.inj (data j) (data k) ownsJ ownsK same
  cases eq
  rfl

/-- Byte `i` of the file, if the inode is saved after the growth and the write. -/
theorem Resized.byte_saved (resized : Resized bm newSize none d s d₁ s₁) (segment : bm.Segment s.count)
    (touches : Touches (d₁.DataBlock s₁.blocks) s₁ s₂) (retimed : Retimed d₁ d₂)
    (low : pos.blockId < bm.startBlockId) {blk : Block} (hs : s₂.put pos.blockId blk = s₃)
    (inside : i < d₁.size.toNat) : d₂.byte s₃.blocks i = byteAt (d₁.ids s₁.blocks) s₂.blocks i := by
  have segment₁ : bm.Segment s₁.count := resized.touches.count ▸ segment
  have after := segment.after
  have owns := DiskInode.owns_data inside
  obtain ⟨copied, -, ids⟩ := Evolved.of_data (W := fun _ => False) resized.map segment₁ touches
  have segment₂ : bm.Segment s₂.count := touches.count ▸ segment₁
  have put : Touches (· = pos.blockId) s₂ s₃ := hs ▸ .put _ _ rfl
  obtain ⟨-, -, ids'⟩ := Evolved.of_below copied.map segment₂ put fun b same => same ▸ low
  have pointers : d₂.slotId s₃.blocks = d₁.slotId s₃.blocks :=
    slotId_pointers (by rw [retimed]) (by rw [retimed]) (by rw [retimed]) _
  have same : d₂.ids s₃.blocks (i / 4096) = d₁.ids s₁.blocks (i / 4096) := by
    rw [DiskInode.ids, pointers, ids' _ owns, ids _ owns, DiskInode.ids]
  have high := (resized.map.used _ owns).1.1
  have block : s₃.blocks (d₁.ids s₁.blocks (i / 4096)) = s₂.blocks (d₁.ids s₁.blocks (i / 4096)) := by
    rw [← hs, Store.put_blocks_ne]
    rw [DiskInode.ids]
    omega
  rw [DiskInode.byte, byteAt, byteAt, same, block]

/-- Byte `i` of the file, if the inode is not saved. -/
theorem Resized.byte_dropped (resized : Resized bm newSize none d s d₁ s₁)
    (map : WellMapped bm d s.blocks) (grows : d.size.toNat ≤ newSize)
    (touches : Touches (d₁.DataBlock s₁.blocks) s₁ s₂) (inside : i < d.size.toNat) :
    d.byte s₂.blocks i = byteAt (d₁.ids s₁.blocks) s₂.blocks i := by
  have still : ∀ x, d.Owns x → d₁.Owns x := fun x => by
    refine Valid.mono ?_
    rw [resized.size]
    simp only [dataBlocks]
    omega
  -- the old inode finds its blocks through the index blocks of the new one
  have ids : ∀ x, d.Owns x → d.slotId s₂.blocks x = d₁.slotId s₁.blocks x := by
    refine slotId_congr_root map.closed (fun x owns root => ?_) fun y owns isIndex => ?_
    · rw [DiskInode.slotId_root root, resized.keeps x owns (still x owns)]
    · apply touches.blocks
      intro written
      obtain ⟨k, ownsK, same⟩ := written
      rw [resized.map.inj y (data k) (still y owns) ownsK same] at isIndex
      cases isIndex
  rw [DiskInode.byte, byteAt, byteAt,
    show d.ids s₂.blocks (i / 4096) = _ from ids _ (DiskInode.owns_data inside)]
  rfl

/-- The block of the inode is not touched before the inode is saved. -/
theorem Resized.inode_dropped (resized : Resized bm newSize none d s d₁ s₁) (segment : bm.Segment s.count)
    (grows : d.size.toNat ≤ newSize) (touches : Touches (d₁.DataBlock s₁.blocks) s₁ s₂)
    (low : pos.blockId < bm.startBlockId) : s₂.blocks pos.blockId = s.blocks pos.blockId := by
  have grown : Evolved bm (fun _ => False) d s d₁ s₁ := resized.evolved_grown grows
  have after := segment.after
  rw [← grown.slot_kept segment low id]
  apply touches.blocks
  intro written
  obtain ⟨k, owns, same⟩ := written
  have := (resized.map.used _ owns).1.1
  rw [DiskInode.ids] at same
  omega

end

/-! ## Ranges that do not fit an `int` -/

section

variable {d : DiskInode} {s : Disk} {R : Nat → Prop} {ids : Nat → Nat} {offset len : Nat}

theorem int32_mod (n : Nat) : int32 (n % 4294967296) = int32 n := by
  simp only [int32, Nat.mod_mod]

/-- Behind the file, or behind `2 ^ 31`, a write fails at once. -/
theorem run_diskWriteData_fails (buf : Mem) (some : 0 < len) (small : offset < 4294967296)
    (failId : s.count ≤ kFailId) (bad : d.size.toNat < offset ∨ 2147483648 ≤ offset) :
    ∃ d' s', (d.writeData offset buf len).run s = ((-1, d'), s') ∧ Retimed d d' ∧
      Touches (fun _ => False) s s' := by
  obtain ⟨d₁, s₁, run₁, retimed, quiet⟩ := run_updateMeta d 3 s
  have size₁ : d₁.size = d.size := by rw [retimed]
  have empty : ¬ len = 0 := by omega
  refine ⟨d₁, s₁, ?_, retimed, quiet⟩
  by_cases early : d₁.size.toNat < offset
  · simp only [DiskInode.writeData, DevProg.run_bind, run₁, empty, early, if_true, if_false,
      DevProg.run_pure]
  · have high := bad.resolve_left (size₁ ▸ early)
    simp only [DiskInode.writeData, DevProg.run_bind, run₁, empty, early, if_false,
      run_writeRange_past buf high small (quiet.count ▸ failId), Bool.false_eq_true, DevProg.run_pure]

/-- Across `2 ^ 31` a write fills its first block, and reports success if it ends with a block. -/
theorem run_diskWriteData_high (buf : Mem) (located : Located d s R ids) (start : offset < 2147483648)
    (high : 2147483648 ≤ offset + len) (small : offset + len < 4294967296)
    (fits : offset + len ≤ d.size.toNat) (failId : s.count ≤ kFailId) (first : R (offset / 4096)) :
    ∃ d' s', (d.writeData offset buf len).run s =
        ((if (offset + len) % 4096 = 0 then int32 len else -1, d'), s') ∧ Retimed d d' ∧
      Filled R ids offset (4096 - offset % 4096) buf s s' := by
  obtain ⟨d₁, s₁, run₁, retimed, quiet⟩ := run_updateMeta d 3 s
  have blocks := quiet.quiet
  have quiet' : Touches (Listed R ids) s s₁ := quiet.mono fun _ => False.elim
  have size₁ : d₁.size = d.size := by rw [retimed]
  have located₁ := (located.after quiet').retimed retimed
  have empty : ¬ len = 0 := by omega
  have early : ¬ d₁.size.toNat < offset := by
    rw [size₁]
    omega
  have cut : d₁.cutLen offset len = len := cutLen_inside (size₁ ▸ fits)
  have head := filled_block buf (offset % 4096) (4096 - offset % 4096) located₁ first (by omega)
  rw [show 4096 * (offset / 4096) + offset % 4096 = offset by omega] at head
  refine ⟨d₁, _, ?_, retimed, quiet'.trans head.touches, fun inj i inR => ?_⟩
  · simp only [DiskInode.writeData, DevProg.run_bind, run₁, empty, early, if_false, cut,
      run_writeRange_high buf located₁ start high small (quiet.count ▸ failId) first]
    by_cases aligned : (offset + len) % 4096 = 0
    · simp only [aligned, decide_true, if_true, DevProg.run_pure]
    · simp only [aligned, decide_false, Bool.false_eq_true, if_false, DevProg.run_pure]
  · rw [head.bytes inj i inR, blocks]

/-- If the end wraps around, a write in the file fills its first block all the same. -/
theorem run_diskWriteData_backward (buf : Mem) (located : Located d s R ids)
    (start : offset < 2147483648) (wraps : 4294967296 ≤ offset + len) (size32 : len < 4294967296)
    (inFile : offset < d.size.toNat) (inside : ∀ k, k ≤ offset / 4096 → R k) :
    ∃ ret d' s', (d.writeData offset buf len).run s = ((ret, d'), s') ∧ ret < 0 ∧ Retimed d d' ∧
      Touches (Listed R ids) s s' ∧
      ((∀ j k, R j → R k → ids j = ids k → j = k) → byteAt ids s'.blocks offset = buf 0) := by
  obtain ⟨d₁, s₁, run₁, retimed, quiet⟩ := run_updateMeta d 3 s
  have quiet' : Touches (Listed R ids) s s₁ := quiet.mono fun _ => False.elim
  have size₁ : d₁.size = d.size := by rw [retimed]
  have located₁ := (located.after quiet').retimed retimed
  have empty : ¬ len = 0 := by omega
  have early : ¬ d₁.size.toNat < offset := by
    rw [size₁]
    omega
  have cut : d₁.cutLen offset len = len := by
    rw [DiskInode.cutLen, size₁, if_neg (by omega)]
  have back : (offset + len) % 4294967296 < offset := by omega
  obtain ⟨ok, s', run, touches, byte⟩ := run_writeRange_backward buf located₁ start back inside
  rw [int32_mod] at run
  have negative : int32 len < 0 := by
    rw [int32, Nat.mod_eq_of_lt size32, if_neg (by omega)]
    omega
  refine ⟨if ok then int32 len else -1, d₁, s', ?_, ?_, retimed, quiet'.trans touches, byte⟩
  · simp only [DiskInode.writeData, DevProg.run_bind, run₁, empty, early, if_false, cut, run]
    cases ok <;> rfl
  · cases ok with
    | true => exact negative
    | false => exact (by decide : (-1 : Int) < 0)

end

namespace Inode

/-- A read that returns no byte. -/
theorem run_readData_nothing {bm : Bitmap} {d : DiskInode} {s : Disk} {pos : Position} {offset len : Nat}
    (here : d.At s.blocks pos) (low : pos.blockId < bm.startBlockId) (segment : bm.Segment s.count)
    (failId : s.count ≤ kFailId) (some : 0 < len) (small : offset < 4294967296)
    (bad : d.size.toNat < offset ∨ 2147483648 ≤ offset ∨
      d.size.toNat = offset ∧ offset + len < 4294967296) (buf : Mem) :
    ∃ ret got s', (readData pos offset buf len).run s = ((ret, got), s') ∧ ret ≤ 0 := by
  have after := segment.after
  have onDevice : pos.blockId < s.count := by
    have := segment.onDevice
    omega
  obtain ⟨ret, d', s', run, none, -, quiet⟩ := run_diskReadData_nothing buf some small failId bad
  have onDevice' : pos.blockId < s'.count := quiet.count ▸ onDevice
  have read : (readInode pos).run s = (Option.some d, s) := by rw [run_readInode onDevice, here]
  by_cases failed : ret = -1
  · refine ⟨-1, buf, s', ?_, by decide⟩
    rw [readData, DevProg.run_bind, read]
    simp only [DevProg.run_bind, run, failed, if_true, DevProg.run_pure]
  · refine ⟨ret, buf, s'.put pos.blockId (putInode (s'.blocks pos.blockId) pos.blockOffset d'), ?_,
      none⟩
    rw [readData, DevProg.run_bind, read]
    simp only [DevProg.run_bind, run, failed, if_false, run_writeInode d' onDevice', DevProg.run_pure]

end Inode

/-! ## What is asked of the calls -/

/-- The file `d'` on `D'` is the file `d` on `D` with `len` bytes of `buf` at `offset`. -/
structure Replaced (offset len : Nat) (buf : Mem) (d : DiskInode) (D : Nat → Block) (d' : DiskInode)
    (D' : Nat → Block) : Prop where
  size : d'.size.toNat = max d.size.toNat (offset + len)
  written : ∀ i, i < len → d'.byte D' (offset + i) = buf i
  kept : ∀ i, i < d.size.toNat → i < offset ∨ offset + len ≤ i → d'.byte D' i = d.byte D i

/-- The file `d'` on `D'` is the file `d` on `D`. -/
structure SameBytes (d : DiskInode) (D : Nat → Block) (d' : DiskInode) (D' : Nat → Block) : Prop where
  size : d'.size = d.size
  bytes : ∀ i, i < d.size.toNat → d'.byte D' i = d.byte D i

section

variable (L : Layout) (uid gid : UInt16) (v : Vfs) (fh a : Nat) (s : Disk) (offset size : Nat)

/-- `sb_write` through a descriptor of inode `a` writes what it says at the offset it was given,
or reports an error and writes nothing, whatever the bytes are. -/
def HonoursWrite : Prop :=
  ∀ buf, ∃ ret s', Runs (InodeReq.on L.formatted uid gid Store.handler)
      (v.sbWrite fh buf size offset) s ret s' ∧
    (0 ≤ ret → ret ≤ size ∧ Replaced offset ret.toNat buf (L.inode s.blocks a) s.blocks
      (L.inode s'.blocks a) s'.blocks) ∧
    (ret < 0 → SameBytes (L.inode s.blocks a) s.blocks (L.inode s'.blocks a) s'.blocks)

/-- `sb_read` returns the bytes at the offset it was given, or reports an error. -/
def HonoursRead : Prop :=
  ∀ out, ∃ ret got s', Runs (InodeReq.on L.formatted uid gid Store.handler)
      (v.sbRead fh out size offset) s (ret, got) s' ∧
    (0 ≤ ret → ret ≤ size ∧ ((L.inode s.blocks a).size.toNat ≤ offset → ret = 0) ∧
      ∀ i, i < ret.toNat → offset + i < (L.inode s.blocks a).size.toNat ∧
        got i = (L.inode s.blocks a).byte s.blocks (offset + i))

end

/-- The range fits an `int` as it was given; or the call fails before it touches a byte of the
file, because the offset that is left of it is negative as an `int`, lies behind the file, or
lies at its end while the end of the range is negative and inside a block. -/
def OffsetKept (fileSize offset size : Nat) : Prop :=
  FitsInt offset size ∨ 2147483648 ≤ offset % 4294967296 ∨
    (fileSize < offset % 4294967296 ∧ 4294967296 ≤ offset % 4294967296 + size) ∨
    (fileSize ≤ offset % 4294967296 ∧ 2147483648 ≤ offset % 4294967296 + size ∧
      offset % 4294967296 + size < 4294967296 ∧ (offset % 4294967296 + size) % 4096 ≠ 0)

section

variable {L : Layout} {uid gid : UInt16} {v : Vfs} {fh a : Nat} {s : Disk} {offset size : Nat}

/-- `sb_write` on an open descriptor is `Inode::write_data` at the offset that is left. -/
theorem runs_sbWrite (opened : v.fdManager.get fh = some (some (L.slot a))) (size32 : size ≤ 4294967295)
    {buf : Mem} {ret : Int} {s' : Disk} :
    Runs (InodeReq.on L.formatted uid gid Store.handler) (v.sbWrite fh buf size offset) s ret s' ↔
      ∃ len, (Inode.writeData L.formatted (L.slot a) (offset % 4294967296) buf size).run s = (len, s') ∧
        ret = if len = -1 then -5 else len := by
  rw [Vfs.sbWrite, if_neg (Nat.not_lt.mpr size32), opened]
  simp only [Vfs.useInode, VfsProg.writeData, runs_bind, runs_call]
  constructor
  · rintro ⟨len, u, ⟨_, run⟩, runs⟩
    split at runs <;> rename_i failed
    · obtain ⟨rfl, rfl⟩ := runs_pure.mp runs
      exact ⟨len, run, by rw [if_pos failed]⟩
    · obtain ⟨rfl, rfl⟩ := runs_pure.mp runs
      exact ⟨ret, run, by rw [if_neg failed]⟩
  · rintro ⟨len, run, rfl⟩
    refine ⟨len, s', ⟨by simp, run⟩, ?_⟩
    split
    · exact .done
    · exact .done

theorem runs_sbRead (uid gid : UInt16) (opened : v.fdManager.get fh = some (some (L.slot a))) (size32 : size ≤ 4294967295)
    {out got : Mem} {len : Int} {s' : Disk}
    (run : (Inode.readData (L.slot a) (offset % 4294967296) out size).run s = ((len, got), s')) :
    Runs (InodeReq.on L.formatted uid gid Store.handler) (v.sbRead fh out size offset) s
      (if len = -1 then -5 else len, got) s' := by
  rw [Vfs.sbRead, if_neg (Nat.not_lt.mpr size32), opened]
  simp only [Vfs.useInode, VfsProg.readData, runs_bind, runs_call]
  refine ⟨(len, got), s', ⟨by simp, run⟩, ?_⟩
  split
  · exact .done
  · exact .done

/-- The file that `Inode::write_data` leaves, seen through the blocks that it found. -/
theorem writeData_view {d d₁ d₂ : DiskInode} {s₁ s₂ : Disk} {newSize offset : Nat} {buf : Mem} {ret : Int}
    (slotId : L.SlotId a) (here : L.inode s.blocks a = d)
    (map : WellMapped L.formatted.dataBitmap d s.blocks)
    (segment : L.formatted.dataBitmap.Segment s.count)
    (run₁ : (Inode.growFor L.formatted d offset size).run s = ((.kSuccess, d₁), s₁))
    (resized : Resized L.formatted.dataBitmap newSize none d s d₁ s₁) (grows : d.size.toNat ≤ newSize)
    (run₂ : (d₁.writeData offset buf size).run s₁ = ((ret, d₂), s₂)) (retimed : Retimed d₁ d₂)
    (touches : Touches (d₁.DataBlock s₁.blocks) s₁ s₂) :
    ∃ s', (Inode.writeData L.formatted (L.slot a) offset buf size).run s = (ret, s') ∧
      (ret = -1 → L.inode s'.blocks a = d) ∧ (ret ≠ -1 → (L.inode s'.blocks a).size = d₁.size) ∧
      ∀ i, i < d.size.toNat ∨ ret ≠ -1 ∧ i < d₁.size.toNat →
        (L.inode s'.blocks a).byte s'.blocks i = byteAt (d₁.ids s₁.blocks) s₂.blocks i := by
  have low := Layout.slot_low slotId
  have after := segment.after
  have onDevice : (L.slot a).blockId < s.count := by
    have := segment.onDevice
    omega
  have count₁ : s₁.count = s.count := resized.touches.count
  have count₂ : s₂.count = s₁.count := touches.count
  have larger : d.size.toNat ≤ d₁.size.toNat := resized.size ▸ grows
  have run : (Inode.writeData L.formatted (L.slot a) offset buf size).run s = if ret = -1 then (-1, s₂)
      else (ret, s₂.put (L.slot a).blockId
        (putInode (s₂.blocks (L.slot a).blockId) (L.slot a).blockOffset d₂)) := by
    rw [Inode.run_writeData_parts onDevice here, run₁, Inode.run_store (count₁ ▸ onDevice) run₂]
  rw [run]
  by_cases failed : ret = -1
  · -- the inode stays as it was
    have inode : L.inode s₂.blocks a = d := by
      rw [← here, Layout.inode, Layout.inode, resized.inode_dropped segment grows touches low]
    rw [if_pos failed, failed]
    refine ⟨s₂, rfl, fun _ => inode, fun ok => absurd rfl ok, fun i inside => ?_⟩
    rw [inode]
    exact resized.byte_dropped map grows touches (inside.resolve_right fun both => both.1 rfl)
  · rw [if_neg failed]
    generalize saved : s₂.put (L.slot a).blockId
      (putInode (s₂.blocks (L.slot a).blockId) (L.slot a).blockOffset d₂) = s₃
    have inode : L.inode s₃.blocks a = d₂ := by
      refine Layout.inode_saved (s := s₂) slotId ?_
      rw [Saved, ← saved, Store.put_blocks_same _ _ (by omega)]
    refine ⟨s₃, rfl, fun bad => absurd bad failed, fun _ => ?_, fun i inside => ?_⟩
    · rw [inode, retimed]
    · rw [inode]
      exact resized.byte_saved segment touches retimed low saved (by omega)

/-! ## When offsets are honoured -/

theorem honoursWrite_of_kept {live : Nat → Prop} (state : Populated L s live) (here : live a)
    (opened : v.fdManager.get fh = some (some (L.slot a))) (some : 1 ≤ size) (size32 : size ≤ 4294967295)
    (enough : growth (L.inode s.blocks a) ((offset % 4294967296 + size) % 4294967296) ≤
      (L.formatted.dataBitmap.freeIds s.blocks).length)
    (kept : OffsetKept (L.inode s.blocks a).size.toNat offset size) :
    HonoursWrite L uid gid v fh a s offset size := by
  intro buf
  have slotId := state.slots a here
  have low := Layout.slot_low slotId
  have map := state.volume.map a here
  have segment := state.volume.segment
  generalize inode : L.inode s.blocks a = d at enough kept map ⊢
  have sizeLt := d.size.toNat_lt
  cases kept with
  | inl fits =>
    -- the range fits, so nothing is reduced
    have range := fits.range
    have whole : offset % 4294967296 = offset := Nat.mod_eq_of_lt (by omega)
    have enough' : growth d (offset + size) ≤ (L.formatted.dataBitmap.freeIds s.blocks).length := by
      rw [whole, Nat.mod_eq_of_lt (by omega)] at enough
      exact enough
    obtain ⟨d', s', run, written, saved⟩ := Inode.run_writeData (d := d) inode low map segment
      state.failId some fits enough' buf
    have self : L.inode s'.blocks a = d' := Layout.inode_saved slotId saved
    refine ⟨size, s', (runs_sbWrite opened size32).mpr ⟨size, by rw [whole]; exact run, by omega⟩,
      fun _ => ⟨Int.le_refl _, ?_⟩, fun negative => by omega⟩
    rw [self, Int.toNat_natCast]
    refine ⟨written.size, fun i inside => ?_, fun i old outside => ?_⟩
    · rw [written.bytes _ (by rw [written.size]; omega), splice_inside (by omega) (by omega)]
      congr 1
      omega
    · have owns := DiskInode.owns_data old
      rw [written.bytes i (by rw [written.size]; omega), splice_outside outside, DiskInode.byte, byteAt,
        byteAt, show d'.ids s'.blocks (i / 4096) = _ from written.keeps _ owns]
      rfl
  | inr refused =>
    obtain ⟨d₁, s₁, run₁, resized⟩ := run_growFor_wrapped _ _ map segment enough
    have larger : d.size.toNat ≤ d₁.size.toNat := by
      rw [resized.size]
      exact Nat.le_max_left _ _
    have failId₁ : s₁.count ≤ kFailId := resized.touches.count ▸ state.failId
    -- the write reports an error and leaves the bytes of the old file alone
    obtain ⟨d₂, s₂, run₂, retimed, touches, same⟩ : ∃ d₂ s₂,
        (d₁.writeData (offset % 4294967296) buf size).run s₁ = ((-1, d₂), s₂) ∧ Retimed d₁ d₂ ∧
        Touches (d₁.DataBlock s₁.blocks) s₁ s₂ ∧ ∀ i, i < d.size.toNat →
          byteAt (d₁.ids s₁.blocks) s₂.blocks i = byteAt (d₁.ids s₁.blocks) s₁.blocks i := by
      by_cases atOnce : d₁.size.toNat < offset % 4294967296 ∨ 2147483648 ≤ offset % 4294967296
      · obtain ⟨d₂, s₂, run₂, retimed, quiet⟩ := run_diskWriteData_fails buf some
          (Nat.mod_lt offset (by decide)) failId₁ atOnce
        exact ⟨d₂, s₂, run₂, retimed, quiet.mono fun _ => False.elim, fun i _ => by rw [quiet.quiet]⟩
      · -- the first block is filled, behind the end of the old file
        rw [resized.size] at atOnce
        have bounds : d.size.toNat ≤ offset % 4294967296 ∧ offset % 4294967296 < 2147483648 ∧
            2147483648 ≤ offset % 4294967296 + size ∧ offset % 4294967296 + size < 4294967296 ∧
            (offset % 4294967296 + size) % 4096 ≠ 0 := by
          omega
        obtain ⟨behind, start, high, small, unaligned⟩ := bounds
        have fits : offset % 4294967296 + size ≤ d₁.size.toNat := by
          rw [resized.size, Nat.mod_eq_of_lt small]
          exact Nat.le_max_right _ _
        obtain ⟨d₂, s₂, run₂, retimed, filled⟩ := run_diskWriteData_high buf
          (resized.located segment) start high small fits failId₁ (DiskInode.owns_data (by omega))
        rw [if_neg unaligned] at run₂
        refine ⟨d₂, s₂, run₂, retimed, filled.touches, fun i old => ?_⟩
        rw [filled.bytes resized.ids_inj i (DiskInode.owns_data (by omega)),
          splice_outside (.inl (by omega))]
    obtain ⟨s', run, inode', -, bytes⟩ := writeData_view slotId inode map segment run₁ resized
      (Nat.le_max_left _ _) run₂ retimed touches
    refine ⟨-5, s', (runs_sbWrite opened size32).mpr ⟨-1, run, rfl⟩, fun negative => by omega,
      fun _ => ⟨by rw [inode' rfl], fun i old => ?_⟩⟩
    rw [bytes i (.inl old), same i old]
    exact resized.bytes segment (fun pos none => by cases none) old (by omega)

theorem honoursRead_of_kept {live : Nat → Prop} (state : Populated L s live) (here : live a)
    (opened : v.fdManager.get fh = some (some (L.slot a))) (some : 1 ≤ size) (size32 : size ≤ 4294967295)
    (kept : OffsetKept (L.inode s.blocks a).size.toNat offset size) :
    HonoursRead L uid gid v fh a s offset size := by
  intro out
  have slotId := state.slots a here
  have low := Layout.slot_low slotId
  have map := state.volume.map a here
  have segment := state.volume.segment
  generalize inode : L.inode s.blocks a = d at kept map ⊢
  have sizeLt := d.size.toNat_lt
  by_cases inFile : FitsInt offset size ∧ offset < d.size.toNat
  · obtain ⟨fits, start⟩ := inFile
    have range := fits.range
    have whole : offset % 4294967296 = offset := Nat.mod_eq_of_lt (by omega)
    have fits' : FitsInt offset (min size (d.size.toNat - offset)) := by
      simp only [FitsInt] at fits ⊢
      omega
    obtain ⟨d', s', run, -⟩ := Inode.run_readData (d := d) inode low map segment some start fits'
      state.failId (by omega) out
    rw [← whole] at run
    have runs := runs_sbRead uid gid opened size32 run
    rw [whole, if_neg (by omega)] at runs
    refine ⟨_, _, s', runs, fun _ => ⟨by omega, fun past => absurd start (Nat.not_lt.mpr past),
      fun i inside => ⟨by omega, ?_⟩⟩, ⟩
    rw [splice_inside (by omega) (by omega), Nat.sub_zero]
  · -- whatever is left of the offset, no byte is returned
    have bad : d.size.toNat < offset % 4294967296 ∨ 2147483648 ≤ offset % 4294967296 ∨
        d.size.toNat = offset % 4294967296 ∧ offset % 4294967296 + size < 4294967296 := by
      simp only [OffsetKept, FitsInt] at kept inFile
      omega
    obtain ⟨ret, got, s', run, none⟩ := Inode.run_readData_nothing (d := d) inode low segment
      state.failId some (Nat.mod_lt offset (by decide)) bad out
    have runs := runs_sbRead uid gid opened size32 run
    refine ⟨_, got, s', runs, fun positive => ?_⟩
    split at positive
    · omega
    · rename_i ok
      rw [if_neg ok]
      obtain rfl : ret = 0 := by omega
      exact ⟨by omega, fun _ => rfl, fun i inside => absurd inside (Nat.not_lt_zero i)⟩

/-- The one case in which the code takes the place behind the file for a part of it: the offset
that is left is the end of the file, and the end of the range wraps around. -/
def AtEnd (fileSize offset size : Nat) : Prop :=
  offset % 4294967296 = fileSize ∧ fileSize < 2147483648 ∧ 4294967296 ≤ offset % 4294967296 + size

/-- Two bytes differ. -/
theorem ne_succ (x : UInt8) : x + 1 ≠ x := by
  intro same
  have bound := x.toNat_lt
  have nat := congrArg UInt8.toNat same
  rw [UInt8.toNat_add, show (1 : UInt8).toNat = 1 from rfl] at nat
  omega

/-- What a call that gets as far as writing says about the file, if it honours its offset. -/
theorem HonoursWrite.outcome (honours : HonoursWrite L uid gid v fh a s offset size)
    (opened : v.fdManager.get fh = some (some (L.slot a))) (size32 : size ≤ 4294967295)
    (slotId : L.SlotId a) (map : WellMapped L.formatted.dataBitmap (L.inode s.blocks a) s.blocks)
    (segment : L.formatted.dataBitmap.Segment s.count) {d₁ d₂ : DiskInode} {s₁ s₂ : Disk} {newSize : Nat}
    (run₁ : (Inode.growFor L.formatted (L.inode s.blocks a) (offset % 4294967296) size).run s =
      ((.kSuccess, d₁), s₁))
    (resized : Resized L.formatted.dataBitmap newSize none (L.inode s.blocks a) s d₁ s₁)
    (grows : (L.inode s.blocks a).size.toNat ≤ newSize) {buf : Mem} {ret : Int}
    (run₂ : (d₁.writeData (offset % 4294967296) buf size).run s₁ = ((ret, d₂), s₂))
    (retimed : Retimed d₁ d₂) (touches : Touches (d₁.DataBlock s₁.blocks) s₁ s₂) :
    (0 ≤ ret → offset + ret.toNat < 4294967296 ∧ ∀ i, i < ret.toNat → offset + i < d₁.size.toNat →
      byteAt (d₁.ids s₁.blocks) s₂.blocks (offset + i) = buf i) ∧
    (ret < 0 → (ret ≠ -1 → d₁.size = (L.inode s.blocks a).size) ∧
      ∀ i, i < (L.inode s.blocks a).size.toNat →
        byteAt (d₁.ids s₁.blocks) s₂.blocks i = (L.inode s.blocks a).byte s.blocks i) := by
  obtain ⟨ret', s', runs, written, refused⟩ := honours buf
  obtain ⟨len, run, rfl⟩ := (runs_sbWrite opened size32).mp runs
  obtain ⟨s'', run', inode, size', bytes⟩ :=
    writeData_view slotId rfl map segment run₁ resized grows run₂ retimed touches
  rw [run', Prod.mk.injEq] at run
  obtain ⟨rfl, rfl⟩ := run
  have sizeLt := (L.inode s''.blocks a).size.toNat_lt
  constructor
  · intro positive
    -- a result that is not negative is not the failure of the transfer
    have ok : ret ≠ -1 := by omega
    rw [if_neg ok] at written
    obtain ⟨-, replaced⟩ := written positive
    refine ⟨?_, fun i inside inFile => ?_⟩
    · have := replaced.size
      omega
    · rw [← bytes (offset + i) (.inr ⟨ok, inFile⟩)]
      exact replaced.written i inside
  · intro negative
    have same : SameBytes (L.inode s.blocks a) s.blocks (L.inode s''.blocks a) s''.blocks := by
      apply refused
      split
      · decide
      · exact negative
    refine ⟨fun ok => by rw [← size' ok, same.size], fun i old => ?_⟩
    rw [← bytes i (.inl old), same.bytes i old]

/-- Outside of `OffsetKept` some bytes are not written as asked. -/
theorem kept_of_honoursWrite {live : Nat → Prop} (state : Populated L s live) (here : live a)
    (opened : v.fdManager.get fh = some (some (L.slot a))) (some : 1 ≤ size) (size32 : size ≤ 4294967295)
    (enough : growth (L.inode s.blocks a) ((offset % 4294967296 + size) % 4294967296) ≤
      (L.formatted.dataBitmap.freeIds s.blocks).length)
    (honours : HonoursWrite L uid gid v fh a s offset size)
    (edge : ¬ AtEnd (L.inode s.blocks a).size.toNat offset size) :
    OffsetKept (L.inode s.blocks a).size.toNat offset size := by
  have slotId := state.slots a here
  have map := state.volume.map a here
  have segment := state.volume.segment
  obtain ⟨d₁, s₁, run₁, resized⟩ :=
    run_growFor_wrapped _ _ map segment enough
  have grows := Nat.le_max_left (L.inode s.blocks a).size.toNat
    ((offset % 4294967296 + size) % 4294967296)
  -- the bytes of the buffer are chosen after the growth, which does not look at them
  have outcome := fun (buf : Mem) (ret : Int) (d₂ : DiskInode) (s₂ : Disk)
      (run₂ : (d₁.writeData (offset % 4294967296) buf size).run s₁ = ((ret, d₂), s₂)) =>
    honours.outcome opened size32 slotId map segment run₁ resized grows run₂
  have located := resized.located segment
  have failId₁ : s₁.count ≤ kFailId := resized.touches.count ▸ state.failId
  have sizeEq := resized.size
  generalize L.inode s.blocks a = d at *
  generalize narrow : offset % 4294967296 = o at *
  have sizeLt := d.size.toNat_lt
  by_contra lost
  simp only [OffsetKept, AtEnd, narrow, not_or, not_and, not_not, not_le] at lost edge
  obtain ⟨misfit, low, wrapped, straddles⟩ := lost
  by_cases wraps : 4294967296 ≤ o + size
  · -- the first block is filled, and the result is negative
    have inFile : o < d.size.toNat := by omega
    have inFile₁ : o < d₁.size.toNat := by omega
    obtain ⟨ret, d₂, s₂, run₂, negative, retimed, touches, byte⟩ := run_diskWriteData_backward
      (fun _ => d.byte s.blocks o + 1) located low wraps (by omega) inFile₁
      fun k upper => by
        have := DiskInode.owns_data inFile₁
        simp only [DiskInode.Owns, Valid] at this ⊢
        omega
    have same := ((outcome _ ret d₂ s₂ run₂ retimed touches).2 negative).2 o inFile
    rw [byte resized.ids_inj] at same
    exact ne_succ _ same
  · have small : o + size < 4294967296 := by omega
    rw [Nat.mod_eq_of_lt small] at sizeEq
    have fits : o + size ≤ d₁.size.toNat := by omega
    by_cases fitsInt : FitsInt o size
    · -- the bytes go to the offset that is left, and the size stays below `2 ^ 32`
      have high : 4294967296 ≤ offset := by
        by_contra below
        obtain rfl : offset = o := by omega
        exact misfit fitsInt
      obtain ⟨ret, d₂, s₂, run₂, retimed, touches, good⟩ := run_diskWriteData (fun _ => 0) located some
        fits failId₁ fun k _ upper => by
          simp only [DiskInode.Owns, Valid, dataBlocks]
          omega
      obtain ⟨rfl, -⟩ := good fitsInt
      have := ((outcome _ _ d₂ s₂ run₂ retimed touches).1 (Int.natCast_nonneg _)).1
      omega
    · have across : 2147483648 ≤ o + size := by
        simp only [FitsInt] at fitsInt
        omega
      have first : d₁.Owns (data (o / 4096)) := DiskInode.owns_data (by omega)
      by_cases aligned : (o + size) % 4096 = 0
      · by_cases short : size < 2147483648
        · -- success is reported, and the blocks after the first are not written
          have next : 4096 - o % 4096 < size := by
            simp only [FitsInt] at fitsInt
            omega
          obtain ⟨d₂, s₂, run₂, retimed, filled⟩ := run_diskWriteData_high
            (fun _ => byteAt (d₁.ids s₁.blocks) s₁.blocks (o + (4096 - o % 4096)) + 1) located low across
            small fits failId₁ first
          rw [if_pos aligned, int32_of_lt short] at run₂
          obtain ⟨below, written⟩ := (outcome _ _ d₂ s₂ run₂ retimed filled.touches).1
            (Int.natCast_nonneg _)
          obtain rfl : offset = o := by omega
          have same := written (4096 - offset % 4096) (by omega) (by omega)
          rw [filled.bytes resized.ids_inj _ (DiskInode.owns_data (by omega)),
            splice_outside (.inr (Nat.le_refl _))] at same
          exact ne_succ _ same.symm
        · -- the result is negative, and the first block has changed, or the size
          have negative : int32 size < 0 ∧ int32 size ≠ -1 := by
            rw [int32, Nat.mod_eq_of_lt (by omega), if_neg (by omega)]
            omega
          obtain ⟨d₂, s₂, run₂, retimed, filled⟩ := run_diskWriteData_high
            (fun _ => d.byte s.blocks o + 1) located low across small fits failId₁ first
          rw [if_pos aligned] at run₂
          obtain ⟨size', bytes⟩ := (outcome _ _ d₂ s₂ run₂ retimed filled.touches).2 negative.1
          have sameSize := size' negative.2
          have inFile : o < d.size.toNat := by
            rw [← sameSize]
            omega
          have same := bytes o inFile
          rw [filled.bytes resized.ids_inj _ first, splice_inside (Nat.le_refl _) (by omega)] at same
          exact ne_succ _ same
      · -- an error is reported, and the first block has changed
        have inFile : o < d.size.toNat := by
          by_contra behind
          exact aligned (straddles (by omega) across small)
        obtain ⟨d₂, s₂, run₂, retimed, filled⟩ := run_diskWriteData_high
          (fun _ => d.byte s.blocks o + 1) located low across small fits failId₁ first
        rw [if_neg aligned] at run₂
        have same := ((outcome _ _ d₂ s₂ run₂ retimed filled.touches).2 (by decide)).2 o inFile
        rw [filled.bytes resized.ids_inj _ first, splice_inside (Nat.le_refl _) (by omega)] at same
        exact ne_succ _ same

/-- The calls honour their offset when the range fits, or when nothing of the file is reached;
and no other range is honoured, unless perhaps one that starts at the end of the file and wraps
around. -/
theorem offsets_honoured_iff (L : Layout) (uid gid : UInt16) (v : Vfs) {s : Disk} {live : Nat → Prop}
    (state : Populated L s live) {a fh : Nat} (here : live a)
    (opened : v.fdManager.get fh = some (some (L.slot a))) {offset size : Nat} (some : 1 ≤ size)
    (size32 : size ≤ 4294967295)
    (enough : growth (L.inode s.blocks a) ((offset % 4294967296 + size) % 4294967296) ≤
      (L.formatted.dataBitmap.freeIds s.blocks).length) :
    (OffsetKept (L.inode s.blocks a).size.toNat offset size →
      HonoursWrite L uid gid v fh a s offset size ∧ HonoursRead L uid gid v fh a s offset size) ∧
    (HonoursWrite L uid gid v fh a s offset size ∧ HonoursRead L uid gid v fh a s offset size →
      OffsetKept (L.inode s.blocks a).size.toNat offset size ∨
        AtEnd (L.inode s.blocks a).size.toNat offset size) := by
  refine ⟨fun kept => ⟨honoursWrite_of_kept state here opened some size32 enough kept,
    honoursRead_of_kept state here opened some size32 kept⟩, fun honours => ?_⟩
  by_cases edge : AtEnd (L.inode s.blocks a).size.toNat offset size
  · exact .inr edge
  · exact .inl (kept_of_honoursWrite state here opened some size32 enough honours.1 edge)

end

/-! ### The first file of two -/

/-- Descriptor 10 is open on inode 2. -/
def twoFilesVfs : Vfs :=
  { root := Layout.default.slot 0, pathResolver := .new kPathCacheSize
    fdManager := (FDManager.new.open' (some (Layout.default.slot 2))).2 }

theorem twoFilesVfs_open : twoFilesVfs.fdManager.get 10 = some (some (Layout.default.slot 2)) := rfl

theorem twoFiles_enough (offset : Nat) (first : offset % 4294967296 = 0) :
    growth (Layout.default.inode (oneFileDisk 0).blocks 2) ((offset % 4294967296 + 1) % 4294967296) ≤
      (Layout.default.formatted.dataBitmap.freeIds (oneFileDisk 0).blocks).length := by
  rw [oneFileDisk_slot2, first]
  exact oneFileDisk_free

/-- The first byte of an empty file. -/
theorem offsets_honoured_iff_firstByte :
    HonoursWrite .default 0 0 twoFilesVfs 10 2 (oneFileDisk 0) 0 1 ∧
      HonoursRead .default 0 0 twoFilesVfs 10 2 (oneFileDisk 0) 0 1 :=
  (offsets_honoured_iff .default 0 0 twoFilesVfs (oneFileDisk_populated 0) (.inl rfl) twoFilesVfs_open
    (Nat.le_refl 1) (by decide) (twoFiles_enough 0 rfl)).1 (.inl (.inl (by decide)))

/-- A write at offset `2 ^ 32` goes to offset 0. -/
theorem sbWrite_wraps : ¬ HonoursWrite .default 0 0 twoFilesVfs 10 2 (oneFileDisk 0) 4294967296 1 := by
  intro honours
  have size : (Layout.default.inode (oneFileDisk 0).blocks 2).size.toNat = 0 := by
    rw [oneFileDisk_slot2]
    rfl
  have kept := kept_of_honoursWrite (oneFileDisk_populated 0) (.inl rfl) twoFilesVfs_open (Nat.le_refl 1)
    (by decide) (twoFiles_enough 4294967296 rfl) honours (by rw [size, AtEnd]; omega)
  rw [size, OffsetKept, FitsInt] at kept
  omega

end Sbfs
