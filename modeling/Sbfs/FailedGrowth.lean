import Sbfs.ShortOfSpace

/-! # Growing without enough space, by any number of blocks

`increase` allocates one block after another and stops at the first allocation that fails.
Nothing is given back, so every block that was free is taken then, and no inode has it
(`Spent`).  Only with no free block at all does a failed growth leave nothing behind
(`failed_grow_iff`). -/

namespace Sbfs

open Slot

/-- The outcome of a growth that ran out of blocks. -/
structure Spent (bm : Bitmap) (V : Slot → Prop) (d : DiskInode) (s s' : Disk) : Prop where
  spent : bm.freeIds s'.blocks = []
  touches : Touches (fun b => bm.startBlockId ≤ b) s s'
  none : bm.freeIds s.blocks = [] → ∃ d', Grown bm V [] d s d' s'

section

variable {bm : Bitmap} {V : Slot → Prop} {N : List Slot} {d d' : DiskInode} {s s' s₁ : Disk} {m n i id : Nat}

/-- The blocks that a growth writes lie behind the start of the bitmap. -/
theorem Grown.high (grown : Grown bm V N d s d' s') (map : BlockMap bm d s.blocks V) (segment : bm.Segment s.count) :
    Touches (fun b => bm.startBlockId ≤ b) s s' := by
  have after := segment.after
  refine grown.touches.mono fun b written => ?_
  obtain holds | ⟨x, -, member, rfl⟩ := written
  · exact holds.1
  · cases member with
    | inl old =>
      have := (map.used x old).1.1
      rw [grown.keeps x old]
      omega
    | inr new =>
      have := (Bitmap.mem_freeIds.mp (grown.fresh new).1).1.1
      omega

theorem Alloced.high (alloced : Alloced bm s id s₁) : Touches (fun b => bm.startBlockId ≤ b) s s₁ :=
  alloced.touches.mono fun _ holds => holds.1

/-- Steps that succeeded, and then one that ran out of blocks. -/
theorem Spent.after {W : Slot → Prop} (spent : Spent bm W d' s₁ s') (grown : Grown bm V N d s d' s₁)
    (map : BlockMap bm d s.blocks V) (segment : bm.Segment s.count) (same : ∀ x, W x ↔ V x ∨ x ∈ N) :
    Spent bm V d s s' := by
  refine ⟨spent.spent, (grown.high map segment).trans spent.touches, fun none => ?_⟩
  have takes := grown.takes
  rw [none, eq_comm, List.append_eq_nil_iff, List.map_eq_nil_iff] at takes
  obtain ⟨rfl, free⟩ := takes
  obtain ⟨d'', last⟩ := spent.none free
  exact ⟨d'', grown.trans (last.congr fun x => (same x).symm)⟩

/-- The loop over `direct`, and the loop over the entries of `indirect1`. -/
theorem run_allocEach_spent {α : Type} (store : α → Nat → Nat → α) (segment : bm.Segment s.count) (a : α)
    (short : (bm.freeIds s.blocks).length < n) : ∃ a' s', (DiskInode.allocEach bm store n i a).run s =
        ((.kFail, a'), s') ∧ bm.freeIds s'.blocks = [] ∧ Touches (fun b => bm.startBlockId ≤ b) s s' ∧
      (bm.freeIds s.blocks = [] → s' = s) := by
  induction n generalizing i s a with
  | zero => cases short
  | succ n ih =>
    by_cases free : bm.freeIds s.blocks = []
    · refine ⟨a, s, ?_, free, .refl _ _, fun _ => rfl⟩
      simp only [DiskInode.allocEach, DevProg.run_bind, Bitmap.run_alloc_full segment.toFits free, if_true,
        DevProg.run_pure]
    · obtain ⟨id, s₁, run, alloced⟩ := run_alloc segment (List.length_pos_iff.mpr free)
      have fewer := short
      rw [alloced.free, List.length_cons] at fewer
      obtain ⟨a', s', rest, spent, touches, -⟩ := ih (i := i + 1) (alloced.segment segment) (store a i id) (by omega)
      refine ⟨a', s', ?_, spent, alloced.high.trans touches, fun none => absurd none free⟩
      simp only [DiskInode.allocEach, DevProg.run_bind, run, alloced.ne_kFail segment, if_false, rest]

theorem run_fillIndirect1_spent (segment : bm.Segment s.count) (onDevice : d.indirect1.toNat < s.count)
    (short : (bm.freeIds s.blocks).length < min n 1047 - max m 23) :
    ∃ s', (d.fillIndirect1 m n bm).run s = ((.kFail, d), s') ∧ bm.freeIds s'.blocks = [] ∧
      Touches (fun b => bm.startBlockId ≤ b) s s' ∧ (bm.freeIds s.blocks = [] → s' = s) := by
  obtain ⟨p, s', run, spent, touches, none⟩ := run_allocEach_spent
    (fun p i newBlk => setEntry p (i - 23) newBlk) (i := max m 23) segment (s.blocks d.indirect1.toNat) short
  refine ⟨s', ?_, spent, touches, none⟩
  simp only [DiskInode.fillIndirect1, DevProg.run_bind, DevProg.run_readBlk_of_lt onDevice, run, DevProg.run_pure]

/-- A pointer of the inode to an index block that it owns. -/
theorem pointer_ne_zero {x : Slot} {p : UInt32} (map : BlockMap bm d s.blocks V) (segment : bm.Segment s.count)
    (owns : V x) (here : d.slotId s.blocks x = p.toNat) : p ≠ 0 ∧ p.toNat < s.count := by
  have bound := segment.bound (map.used x owns).1
  rw [here] at bound
  refine ⟨fun zero => ?_, bound.2.1⟩
  rw [zero] at bound
  exact absurd bound.1 (by decide)

theorem run_increaseIndirect1_spent (map : BlockMap bm d s.blocks (Valid (max m 23)))
    (segment : bm.Segment s.count)
    (short : (bm.freeIds s.blocks).length < (if m ≤ 23 then 1 else 0) + (min n 1047 - max m 23)) :
    ∃ d' s', (d.increaseIndirect1 m n bm).run s = ((.kFail, d'), s') ∧
      Spent bm (Valid (max m 23)) d s s' := by
  by_cases small : m ≤ 23
  · have zero : d.indirect1 = 0 := map.no1 (by simp only [Valid]; omega)
    rw [if_pos small] at short
    by_cases free : bm.freeIds s.blocks = []
    · refine ⟨{ d with indirect1 := UInt32.ofNat kFailId }, s, ?_, free, .refl _ _, fun _ => ⟨d, .refl map⟩⟩
      simp only [DiskInode.increaseIndirect1, zero, if_true, DevProg.run_bind,
        Bitmap.run_alloc_full segment.toFits free, DevProg.run_pure]
    · obtain ⟨id, s₁, run, alloced⟩ := run_alloc segment (List.length_pos_iff.mpr free)
      have bound := segment.bound alloced.inSegment
      have pointer : ({ d with indirect1 := UInt32.ofNat id } : DiskInode).indirect1.toNat = id := by
        simp [Nat.mod_eq_of_lt (show id < 4294967296 by omega)]
      have fewer := short
      rw [alloced.free, List.length_cons] at fewer
      obtain ⟨s', rest, spent, touches, -⟩ := run_fillIndirect1_spent (m := m) (n := n)
        (d := { d with indirect1 := UInt32.ofNat id }) (alloced.segment segment)
        (by rw [pointer, alloced.touches.count]; exact bound.2.1) (by omega)
      refine ⟨{ d with indirect1 := UInt32.ofNat id }, s', ?_, spent, alloced.high.trans touches,
        fun none => absurd none free⟩
      simp only [DiskInode.increaseIndirect1, zero, if_true, DevProg.run_bind, run, alloced.ne_kFail segment,
        if_false, rest]
  · rw [if_neg small, Nat.zero_add] at short
    have owns : Valid (max m 23) ind1 := by
      simp only [Valid]
      omega
    obtain ⟨nonzero, onDevice⟩ := pointer_ne_zero map segment owns rfl
    obtain ⟨s', rest, spent, touches, same⟩ := run_fillIndirect1_spent (m := m) segment onDevice short
    refine ⟨d, s', ?_, spent, touches, fun none => ⟨d, by rw [same none]; exact .refl map⟩⟩
    simp only [DiskInode.increaseIndirect1, nonzero, if_false, rest]

/-- The loop under `indirect2`: rounds that succeed, and one that does not. -/
theorem run_growIndirect2_spent (map : BlockMap bm d s.blocks fun x => x = ind2 ∨ Valid i x)
    (segment : bm.Segment s.count) (low : 1047 ≤ i) (high : i + n ≤ 1048576)
    (short : (bm.freeIds s.blocks).length < ((List.range' i n).flatMap groupSlots).length) :
    ∃ s', (DiskInode.growIndirect2 bm d.indirect2.toNat n i (((i : Int) - 1048) / 1024)
        (s.blocks d.indirect2.toNat)).run s = (.kFail, s') ∧
      Spent bm (fun x => x = ind2 ∨ Valid i x) d s s' := by
  induction n generalizing i s with
  | zero => cases short
  | succ n ih =>
    rw [List.range'_succ, List.flatMap_cons, List.length_append] at short
    by_cases enough : (groupSlots i).length ≤ (bm.freeIds s.blocks).length
    · obtain ⟨s₁, grown, map₁, round⟩ := run_growGroup map segment low (by omega) enough
      have count := grown.free_length
      obtain ⟨s', run, spent⟩ := ih map₁ (grown.touches.count ▸ segment) (by omega) (by omega) (by omega)
      exact ⟨s', by rw [round, run], spent.after grown map segment fun x => (valid_succ_group low x)⟩
    · rw [groupSlots_length] at enough
      obtain ⟨s', N, run, grown, free, none⟩ :=
        run_growIndirect2_short map segment low (by omega) (Nat.lt_of_not_le enough) n
      refine ⟨s', run, free, grown.high map segment, fun empty => ⟨d, ?_⟩⟩
      rw [none empty] at grown
      exact grown

theorem run_fillIndirect2_spent (map : BlockMap bm d s.blocks fun x => x = ind2 ∨ Valid (max m 1047) x)
    (segment : bm.Segment s.count) (high : n ≤ 1048576)
    (short : (bm.freeIds s.blocks).length <
      ((List.range' (max m 1047) (n - max m 1047)).flatMap groupSlots).length) :
    ∃ s', (d.fillIndirect2 m n bm).run s = ((.kFail, d), s') ∧
      Spent bm (fun x => x = ind2 ∨ Valid (max m 1047) x) d s s' := by
  have onDevice : d.indirect2.toNat < s.count :=
    (segment.bound (map.used ind2 (.inl rfl)).1).2.1
  have le : max m 1047 ≤ n := by
    by_contra less
    rw [Nat.sub_eq_zero_of_le (Nat.le_of_not_le less), List.range'_zero] at short
    cases short
  obtain ⟨s', run, spent⟩ := run_growIndirect2_spent map segment (by omega) (by omega) short
  refine ⟨s', ?_, spent⟩
  simp only [DiskInode.fillIndirect2, DevProg.run_bind, DevProg.run_readBlk_of_lt onDevice, blkLimit_eq,
    run, DevProg.run_pure]

theorem run_increaseIndirect2_spent (map : BlockMap bm d s.blocks (Valid (max m 1047)))
    (segment : bm.Segment s.count) (high : n ≤ 1048576)
    (short : (bm.freeIds s.blocks).length < (if m ≤ 1047 then 1 else 0) +
      ((List.range' (max m 1047) (n - max m 1047)).flatMap groupSlots).length) :
    ∃ d' s', (d.increaseIndirect2 m n bm).run s = ((.kFail, d'), s') ∧
      Spent bm (Valid (max m 1047)) d s s' := by
  by_cases small : m ≤ 1047
  · have start : max m 1047 = 1047 := by omega
    have zero : d.indirect2 = 0 := map.no2 (by simp only [Valid]; omega)
    rw [if_pos small] at short
    by_cases free : bm.freeIds s.blocks = []
    · refine ⟨{ d with indirect2 := UInt32.ofNat kFailId }, s, ?_, free, .refl _ _, fun _ => ⟨d, .refl map⟩⟩
      simp only [DiskInode.increaseIndirect2, zero, if_true, DevProg.run_bind,
        Bitmap.run_alloc_full segment.toFits free, DevProg.run_pure]
    · obtain ⟨id, s₁, run, alloced⟩ := run_alloc segment (List.length_pos_iff.mpr free)
      rw [start] at map
      have step := grown_ind2 map segment alloced (Nat.le_refl 1047)
      have same : ∀ x, (x = ind2 ∨ Valid 1047 x) ↔ Valid 1047 x ∨ x ∈ [ind2] := by
        intro x
        rw [List.mem_singleton, or_comm]
      have map₁ := (step.map map ((closed_with rfl 1047).congr fun x => (same x).symm)).congr same
      have fewer := short
      rw [alloced.free, List.length_cons] at fewer
      obtain ⟨s', rest, spent⟩ := run_fillIndirect2_spent (m := m) (n := n) (start.symm ▸ map₁)
        (alloced.segment segment) high (by omega)
      rw [start] at spent ⊢
      refine ⟨{ d with indirect2 := UInt32.ofNat id }, s', ?_, spent.after step map segment same⟩
      simp only [DiskInode.increaseIndirect2, zero, if_true, DevProg.run_bind, run, alloced.ne_kFail segment,
        if_false, rest]
  · have owns : Valid (max m 1047) ind2 := by
      simp only [Valid]
      omega
    have same : ∀ x, (x = ind2 ∨ Valid (max m 1047) x) ↔ Valid (max m 1047) x := by
      intro x
      constructor
      · rintro (rfl | valid)
        · exact owns
        · exact valid
      · exact .inr
    rw [if_neg small, Nat.zero_add] at short
    have nonzero := (pointer_ne_zero map segment owns rfl).1
    obtain ⟨s', rest, spent⟩ := run_fillIndirect2_spent (map.congr same) segment high short
    refine ⟨d, s', ?_, spent.spent, spent.touches, fun none => ?_⟩
    · simp only [DiskInode.increaseIndirect2, nonzero, if_false, rest]
    · obtain ⟨d', grown⟩ := spent.none none
      exact ⟨d', grown.congr fun x => (same x).symm⟩

/-- `increase` fails when there are not enough free blocks, and takes all that there are. -/
theorem run_increase_spent (map : BlockMap bm d s.blocks (Valid m)) (segment : bm.Segment s.count)
    (le : m ≤ n) (high : n ≤ 1048576) (short : (bm.freeIds s.blocks).length < (growSlots m n).length) :
    ∃ d' s', (d.increase m n bm).run s = ((.kFail, d'), s') ∧ Spent bm (Valid m) d s s' := by
  simp only [growSlots, List.length_append, List.length_map, List.length_range'] at short
  by_cases direct : min n 23 - m ≤ (bm.freeIds s.blocks).length
  swap
  · -- the direct blocks do not find room
    obtain ⟨d', s', run, spent, touches, same⟩ := run_allocEach_spent DiskInode.setDirect segment (i := m) d
      (Nat.lt_of_not_le direct)
    refine ⟨d', s', ?_, spent, touches, fun none => ⟨d, by rw [same none]; exact .refl map⟩⟩
    simp only [DiskInode.increase, DevProg.run_bind, run, DevProg.run_pure]
  obtain ⟨d₁, s₁, run₁, grown₁⟩ := run_allocDirect map segment (n := min n 23 - m) (by omega) direct
  have free₁ := grown₁.free_length
  rw [List.length_map, List.length_range'] at free₁
  have segment₁ : bm.Segment s₁.count := grown₁.touches.count ▸ segment
  -- the direct blocks do, so that there are more
  have one : 23 < n := by
    by_contra small
    rw [if_neg small, if_neg (by omega)] at short
    simp only [List.length_nil] at short
    omega
  have same₁ := valid_direct (m := m) one
  have map₁ := (grown₁.map map ((closed_valid _).congr fun x => (same₁ x).symm)).congr same₁
  have lengthOne : (if m ≤ 23 then [ind1] else []).length = if m ≤ 23 then 1 else 0 := by
    split <;> rfl
  simp only [one, if_true, List.length_append, List.length_map, List.length_range', lengthOne] at short
  by_cases indirect : (if m ≤ 23 then 1 else 0) + (min n 1047 - max m 23) ≤ (bm.freeIds s₁.blocks).length
  swap
  · obtain ⟨d', s', run, spent⟩ := run_increaseIndirect1_spent map₁ segment₁ (Nat.lt_of_not_le indirect)
    refine ⟨d', s', ?_, spent.after grown₁ map segment same₁⟩
    simp only [DiskInode.increase, DevProg.run_bind, run₁, one, if_true, run, DevProg.run_pure]
  obtain ⟨d₂, s₂, run₂, grown₂⟩ := run_increaseIndirect1 (n := n) map₁ segment₁ indirect
  have free₂ := grown₂.free_length
  rw [List.length_append, lengthOne, List.length_map, List.length_range'] at free₂
  have grown₁₂ := grown₁.trans (grown₂.congr fun x => (same₁ x).symm)
  -- the blocks under `indirect1` do as well
  have two : 1047 < n := by
    by_contra small
    rw [if_neg small] at short
    simp only [List.length_nil] at short
    omega
  have same₂ := valid_indirect1 (m := m) two
  have map₂ := (grown₁₂.map map ((closed_valid _).congr fun x => (same₂ x).symm)).congr same₂
  have lengthTwo : (if m ≤ 1047 then [ind2] else []).length = if m ≤ 1047 then 1 else 0 := by
    split <;> rfl
  simp only [two, if_true, List.length_append, lengthTwo] at short
  obtain ⟨d', s', run, spent⟩ := run_increaseIndirect2_spent (m := m) (n := n) map₂
    (grown₁₂.touches.count ▸ segment) high (by omega)
  refine ⟨d', s', ?_, spent.after grown₁₂ map segment same₂⟩
  simp only [DiskInode.increase, DevProg.run_bind, run₁, one, if_true, run₂, two, run]

theorem run_resize_spent (map : WellMapped bm d s.blocks) (segment : bm.Segment s.count)
    (size32 : newSize < 4294967296) (short : (bm.freeIds s.blocks).length < growth d newSize)
    (inode : Option Position) :
    ∃ d' s', (d.resize newSize bm inode).run s = ((.kFail, d'), s') ∧ bm.freeIds s'.blocks = [] ∧
      Touches (fun b => bm.startBlockId ≤ b) s s' ∧ (bm.freeIds s.blocks = [] → Dropped bm d s s') := by
  have more : dataBlocks d.size.toNat < dataBlocks newSize := by
    by_contra fewer
    rw [growth_shrink (Nat.le_of_not_lt fewer)] at short
    cases short
  obtain ⟨d₂, s₁, run₁, pointers, bound, quiet⟩ := run_resize_more size32 more bm inode s
  have map₁ : WellMapped bm d s₁.blocks := quiet.quiet ▸ map
  have segment₁ : bm.Segment s₁.count := quiet.count ▸ segment
  rw [growth, ← quiet.quiet] at short
  obtain ⟨d', s', run, spent⟩ := run_increase_spent (map₁.of_ids (pointers s₁.blocks)) segment₁
    (Nat.le_of_lt more) bound short
  refine ⟨d', s', by rw [run₁, run], spent.spent, (quiet.mono fun _ => False.elim).trans spent.touches,
    fun none => ?_⟩
  rw [← quiet.quiet] at none
  obtain ⟨d'', grown⟩ := spent.none none
  have stuck : Stuck bm d.Owns d₂ s₁ s' := ⟨[], d'', grown⟩
  exact (stuck.dropped map₁ segment₁ pointers).after_quiet map quiet

end

/-! ## `Inode::resize` -/

/-- Blocks have been freed or taken, but none of the inode's. -/
structure OthersFreed (bm : Bitmap) (d : DiskInode) (s s' : Disk) : Prop where
  touches : Touches bm.Holds s s'
  kept : ∀ x, d.Owns x → bm.Used s'.blocks (d.slotId s.blocks x)

/-- Resizing fails and leaves the inode `d` and every bit of the data bitmap as they were; a
file can be resized as soon as there are enough free blocks. -/
structure LeavesNothing (fs : SBFileSystem) (pos : Position) (d : DiskInode) (newSize : Nat)
    (s s' : Disk) : Prop where
  run : (Inode.resize fs pos newSize).run s = (.kFail, s')
  inode : inodeIn (s'.blocks pos.blockId) pos.blockOffset = d
  bits : ∀ id, fs.dataBitmap.Used s'.blocks id ↔ fs.dataBitmap.Used s.blocks id
  retry : d.type = kFile → ∀ s'', OthersFreed fs.dataBitmap d s' s'' →
    growth d newSize ≤ (fs.dataBitmap.freeIds s''.blocks).length →
      ((Inode.resize fs pos newSize).run s'').1 = .kSuccess

section

variable {L : Layout} {pos : Position} {d : DiskInode} {s s' : Disk} {newSize : Nat}

/-- Every block is in use afterwards, so every block was. -/
theorem LeavesNothing.full {fs : SBFileSystem} (leaves : LeavesNothing fs pos d newSize s s')
    (spent : fs.dataBitmap.freeIds s'.blocks = []) : fs.dataBitmap.freeIds s.blocks = [] := by
  refine List.eq_nil_iff_forall_not_mem.mpr fun id free => ?_
  have inside := (Bitmap.mem_freeIds.mp free).1
  have used := (leaves.bits id).mp (Bitmap.used_iff.mpr ⟨inside, by rw [spent]; exact List.not_mem_nil⟩)
  exact (Bitmap.used_iff.mp used).2 free

/-- Resizing a file without enough free blocks. -/
theorem run_inodeResize_spent (slot : SlotInside L.formatted pos) (io : L.areaEnd ≤ s.count)
    (here : inodeIn (s.blocks pos.blockId) pos.blockOffset = d) (file : d.type = kFile)
    (map : WellMapped L.formatted.dataBitmap d s.blocks) (size32 : newSize < 4294967296)
    (short : (L.formatted.dataBitmap.freeIds s.blocks).length < growth d newSize) :
    ∃ s', (Inode.resize L.formatted pos newSize).run s = (.kFail, s') ∧
      inodeIn (s'.blocks pos.blockId) pos.blockOffset = d ∧
      L.formatted.dataBitmap.freeIds s'.blocks = [] ∧ s'.count = s.count ∧
      (L.formatted.dataBitmap.freeIds s.blocks = [] → WellMapped L.formatted.dataBitmap d s'.blocks) := by
  have segment := L.segment io
  have low := L.slot_below slot
  have onDevice : pos.blockId < s.count := by
    have := segment.onDevice
    omega
  have read : (readInode pos).run s = (some d, s) := by
    simp only [readInode, DevProg.run_bind, DevProg.run_readBlk_of_lt onDevice, DevProg.run_pure, here]
  have larger : d.size.toNat < newSize := by
    by_contra fewer
    rw [growth_shrink (by simp only [dataBlocks]; omega)] at short
    cases short
  obtain ⟨d', s', run, spent, touches, dropped⟩ := run_resize_spent map segment size32 short none
  refine ⟨s', ?_, ?_, spent, touches.count, fun none => (dropped none).evolved.map⟩
  · simp only [Inode.resize, DevProg.run_bind, read, not_not_intro file, if_false, larger, if_true, run,
      DevProg.run_pure]
  · rw [touches.blocks _ (Nat.not_le_of_lt low), here]

end

/-- A growth for which there are not enough free blocks leaves nothing behind exactly when no
block at all is free, or the inode is not a file's. -/
theorem failed_grow_iff (L : Layout) {pos : Position} (slot : SlotInside L.formatted pos) {s : Disk}
    (io : L.areaEnd ≤ s.count) {d : DiskInode} (here : inodeIn (s.blocks pos.blockId) pos.blockOffset = d)
    (map : WellMapped L.formatted.dataBitmap d s.blocks) {newSize : Nat} (size32 : newSize < 4294967296)
    (short : (L.formatted.dataBitmap.freeIds s.blocks).length < growth d newSize) :
    (∃ s', LeavesNothing L.formatted pos d newSize s s') ↔
      L.formatted.dataBitmap.freeIds s.blocks = [] ∨ d.type ≠ kFile := by
  have segment := L.segment io
  by_cases file : d.type = kFile
  swap
  · have onDevice : pos.blockId < s.count := by
      have := segment.onDevice
      have := L.slot_below slot
      omega
    refine iff_of_true ⟨s, ?_, here, fun _ => Iff.rfl, fun same => absurd same file⟩ (.inr file)
    simp only [Inode.resize, readInode, DevProg.run_bind, DevProg.run_readBlk_of_lt onDevice, DevProg.run_pure,
      here, ne_eq, file, not_false_eq_true, if_true]
  obtain ⟨s₁, run, inode, spent, count, mapped⟩ := run_inodeResize_spent slot io here file map size32 short
  constructor
  · rintro ⟨s', leaves⟩
    left
    have same := leaves.run
    rw [run] at same
    cases same
    exact leaves.full spent
  · rintro (none | other)
    swap
    · exact absurd file other
    refine ⟨s₁, run, inode, fun id => ?_, ?_⟩
    · rw [Bitmap.used_iff, Bitmap.used_iff, spent, none]
    · intro _ s'' freed enough
      have map₁ := mapped none
      have segment₁ : L.formatted.dataBitmap.Segment s₁.count := count ▸ segment
      have map'' : WellMapped L.formatted.dataBitmap d s''.blocks := map₁.frame
        (fun y owns _ => freed.touches.blocks _ (segment₁.not_holds (map₁.used y owns).1)) freed.kept
      have inode'' : inodeIn (s''.blocks pos.blockId) pos.blockOffset = d := by
        rw [freed.touches.blocks _ slot.notDataBitmap, inode]
      obtain ⟨-, s₂, again, -⟩ := run_inodeResize inode'' file map'' (freed.touches.count ▸ segment₁)
        size32 enough (L.slot_below slot)
      rw [again]

/-- On a full disk an empty file cannot grow. -/
theorem failed_grow_iff_full : ∃ s', LeavesNothing Layout.default.formatted
    (Layout.default.formatted.getDiskInodePos 2) emptyFile 1 (oneFileDisk 255) s' :=
  (failed_grow_iff .default deepFile_slot (oneFileDisk_device 255) (oneFileDisk_inode 255)
    (emptyFile_empty.history (oneFileDisk_device 255)).map (by decide)
    (by rw [oneFileDisk_full]; decide)).mpr (.inl oneFileDisk_full)

/-! ### One free block -/

/-- The full disk after block 1153 has been freed. -/
def oneFreeDisk : Disk := Layout.default.formatted.dataBitmap.unmark (oneFileDisk 255) 0

theorem oneFreeDisk_free : Layout.default.formatted.dataBitmap.freeIds oneFreeDisk.blocks = [1153] := by
  have fits := (Layout.default.segment (oneFileDisk_device 255)).toFits
  have offset : Layout.default.formatted.dataBitmap.dataSegmentOffset = 1153 := by
    rw [Layout.dataBitmap_eq]
    rfl
  have capacity : 0 < Layout.default.formatted.dataBitmap.capacity := by
    rw [Layout.dataBitmap_eq]
    decide
  have only : ∀ id, id ∈ Layout.default.formatted.dataBitmap.freeIds oneFreeDisk.blocks ↔ id = 1153 := by
    intro id
    have full : id ∉ Layout.default.formatted.dataBitmap.freeIds (oneFileDisk 255).blocks := by
      rw [oneFileDisk_full]
      exact List.not_mem_nil
    rw [Bitmap.mem_freeIds] at full ⊢
    rw [oneFreeDisk, Bitmap.bit_unmark fits capacity]
    simp only [Bitmap.InSegment, offset] at full ⊢
    grind
  exact List.perm_singleton.mp ((List.perm_ext_iff_of_nodup Bitmap.nodup_freeIds (List.nodup_singleton _)).mpr
    fun id => by rw [only, List.mem_singleton])

/-- An empty file that is to get two blocks takes the only free one. -/
theorem failed_grow_leaks :
    ¬ ∀ (L : Layout) (pos : Position), SlotInside L.formatted pos → ∀ s : Disk, L.areaEnd ≤ s.count →
      ∀ d, inodeIn (s.blocks pos.blockId) pos.blockOffset = d → d.type = kFile →
        WellMapped L.formatted.dataBitmap d s.blocks →
          ∀ newSize, newSize < 4294967296 → d.size.toNat < newSize →
            (L.formatted.dataBitmap.freeIds s.blocks).length < growth d newSize →
              ∃ s', LeavesNothing L.formatted pos d newSize s s' := by
  intro always
  have io := oneFileDisk_device 255
  have inside : (0 : Nat) < Layout.default.formatted.dataBitmap.capacity := by
    rw [Layout.dataBitmap_eq]
    decide
  have touches : Touches _ (oneFileDisk 255) oneFreeDisk := Bitmap.touches_unmark inside
  have here : inodeIn (oneFreeDisk.blocks (Layout.default.formatted.getDiskInodePos 2).blockId)
      (Layout.default.formatted.getDiskInodePos 2).blockOffset = emptyFile := by
    rw [touches.blocks _ deepFile_slot.notDataBitmap]
    exact oneFileDisk_inode 255
  have device : Layout.default.areaEnd ≤ oneFreeDisk.count := io
  have map := (emptyFile_empty.history device).map
  have short : (Layout.default.formatted.dataBitmap.freeIds oneFreeDisk.blocks).length < growth emptyFile 8192 := by
    rw [oneFreeDisk_free]
    decide
  obtain ⟨s', leaves⟩ := always .default _ deepFile_slot oneFreeDisk device emptyFile here rfl map 8192 (by decide)
    (by decide) short
  obtain ⟨s₁, run, -, spent, -⟩ := run_inodeResize_spent deepFile_slot device here rfl map (by decide) short
  have same := leaves.run
  rw [run] at same
  cases same
  have full := leaves.full spent
  rw [oneFreeDisk_free] at full
  cases full

end Sbfs
