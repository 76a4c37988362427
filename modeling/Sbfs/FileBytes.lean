import Sbfs.Ownership

/-! # The bytes of a file

`read_data` and `write_data` walk over the blocks of a file.  `Located` says where the
blocks of a range are found; the bytes in them are one long memory (`byteAt`), and a
write is one `memcpy` into it (`Filled`), however many blocks it crosses. -/

namespace Sbfs

open Slot

/-- The blocks that `ids` gives to the inner ids in `R`. -/
def Listed (R : Nat → Prop) (ids : Nat → Nat) (b : Nat) : Prop := ∃ k, R k ∧ b = ids k

/-- `block_id` finds inner block `k` of `R` at `ids k`, whatever these blocks hold. -/
structure Located (d : DiskInode) (s : Disk) (R : Nat → Prop) (ids : Nat → Nat) : Prop where
  onDevice : ∀ k, R k → ids k < s.count
  find : ∀ k, R k → ∀ s', Touches (Listed R ids) s s' → (d.blockId k).run s' = (ids k, s')
  small : ∀ k, R k → k < 1048576

/-- The end of the range fits into an `int`, or the range lies in the last block before `2 ^ 31`. -/
def FitsInt (offset len : Nat) : Prop :=
  offset + len < 2147483648 ∨ offset + len = 2147483648 ∧ 2147483648 ≤ offset + 4096

theorem FitsInt.range {offset len : Nat} (fits : FitsInt offset len) : offset + len ≤ 2147483648 := by
  rw [FitsInt] at fits
  omega

/-- Byte `i` of the blocks. -/
def byteAt (ids : Nat → Nat) (D : Nat → Block) (i : Nat) : UInt8 := (D (ids (i / 4096))).get (i % 4096)

/-- The effect of copying `len` bytes to offset `l` of the file. -/
structure Filled (R : Nat → Prop) (ids : Nat → Nat) (l len : Nat) (buf : Mem) (s s' : Disk) : Prop where
  touches : Touches (Listed R ids) s s'
  bytes : (∀ j k, R j → R k → ids j = ids k → j = k) → ∀ i, R (i / 4096) →
    byteAt ids s'.blocks i = splice (byteAt ids s.blocks) l len buf i

section

variable {d : DiskInode} {s s' s₁ s₂ : Disk} {R : Nat → Prop} {ids : Nat → Nat} {l m n k : Nat} {buf : Mem}

theorem Located.after (located : Located d s R ids) (touches : Touches (Listed R ids) s s') :
    Located d s' R ids :=
  ⟨fun k inside => touches.count ▸ located.onDevice k inside,
    fun k inside _ later => located.find k inside _ (touches.trans later), located.small⟩

theorem Located.run_blockId (located : Located d s R ids) (inside : R k) :
    (d.blockId k).run s = (ids k, s) :=
  located.find k inside s (.refl _ _)

/-- The data blocks of a block map. -/
theorem located_of_map {bm : Bitmap} {V : Slot → Prop} (map : BlockMap bm d s.blocks V)
    (segment : bm.Segment s.count) (small : ∀ k, V (data k) → k < 1048576) :
    Located d s (fun k => V (data k)) fun k => d.slotId s.blocks (data k) := by
  refine ⟨fun k valid => (segment.bound (map.used _ valid).1).2.1, fun k valid s' touches => ?_, small⟩
  have index : ∀ y, V y → y.isIndex = true →
      s'.blocks (d.slotId s.blocks y) = s.blocks (d.slotId s.blocks y) := by
    intro y validY isIndex
    refine touches.blocks _ ?_
    rintro ⟨j, validJ, same⟩
    rw [map.inj y (data j) validY validJ same] at isIndex
    cases isIndex
  have bits : ∀ x, V x → bm.Used s'.blocks (d.slotId s.blocks x) := by
    intro x validX
    refine (Bitmap.used_congr fun b holds => touches.blocks b ?_).mpr (map.used x validX)
    rintro ⟨j, validJ, rfl⟩
    exact segment.not_holds (map.used (data j) validJ).1 holds
  rw [Sbfs.run_blockId (map.frame index bits) (touches.count ▸ segment) valid (small k valid),
    slotId_congr map.closed index (data k) valid]

/-- The blocks that the inode itself points to. -/
theorem located_direct (onDevice : ∀ k, k < n → d.directAt k < s.count) (low : n ≤ 23) :
    Located d s (fun k => k < n) d.directAt := by
  refine ⟨onDevice, fun k inside s' _ => ?_, fun k inside => by omega⟩
  rw [DiskInode.blockId, if_neg (by omega), if_pos (by omega)]
  rfl

/-! ## Writing -/

theorem splice_congr {f g : Mem} {i : Nat} (same : f i = g i) : splice f l n buf i = splice g l n buf i := by
  simp only [splice, same]

namespace Filled

theorem zero (s : Disk) : Filled R ids l 0 buf s s :=
  ⟨.refl _ _, fun _ i _ => by rw [splice_zero]⟩

theorem trans (first : Filled R ids l m buf s s₁)
    (second : Filled R ids (l + m) n (fun i => buf (m + i)) s₁ s₂) :
    Filled R ids l (m + n) buf s s₂ := by
  refine ⟨first.touches.trans second.touches, fun inj i inside => ?_⟩
  rw [second.bytes inj i inside, splice_congr (first.bytes inj i inside), splice_splice]

end Filled

theorem byteAt_mem {k p : Nat} (inside : p < 4096) (D : Nat → Block) :
    byteAt ids D (4096 * k + p) = (D (ids k)).get p := by
  rw [byteAt]
  congr 2
  · congr 1
    omega
  · omega

/-- Writing into one block. -/
theorem filled_block (buf : Mem) (off len : Nat) (located : Located d s R ids) (inside : R k)
    (fits : off + len ≤ 4096) :
    Filled R ids (4096 * k + off) len buf s
      (s.put (ids k) ((s.blocks (ids k)).blit off len buf)) := by
  refine ⟨.put _ _ ⟨k, inside, rfl⟩, fun inj i insideI => ?_⟩
  have onDevice := located.onDevice k inside
  by_cases here : i / 4096 = k
  · obtain ⟨p, low, rfl⟩ : ∃ p, p < 4096 ∧ i = 4096 * k + p :=
      ⟨i % 4096, by omega, by omega⟩
    rw [byteAt_mem low, Store.put_blocks_same _ _ onDevice, Bytes.get_blit _ _ low]
    by_cases copied : off ≤ p ∧ p < off + len
    · rw [splice_inside copied.1 copied.2, splice_inside (by omega) (by omega)]
      congr 1
      omega
    · rw [splice_outside (by omega), splice_outside (by omega), byteAt_mem low]
  · have other : ids (i / 4096) ≠ ids k := fun same => here (inj _ _ insideI inside same)
    rw [splice_outside (by omega), byteAt, Store.put_blocks_ne _ _ other, byteAt]

theorem run_patchBlock {id off len : Nat} (onDevice : id < s.count) :
    (DiskInode.patchBlock id off len buf).run s =
      (true, s.put id ((s.blocks id).blit off len buf)) := by
  simp only [DiskInode.patchBlock, DevProg.run_bind, DevProg.run_readBlk_of_lt onDevice,
    DevProg.run_writeBlk_of_lt _ onDevice]

theorem uint32_natCast {k : Nat} (small : k < 4294967296) : uint32 (k : Int) = k := by
  simp only [uint32]
  omega

theorem blit_whole (b : Block) : b.blit 0 4096 buf = Bytes.ofMem buf := by
  refine Bytes.ext_get fun i inside => ?_
  rw [Bytes.get_blit _ _ inside, splice_inside (by omega) (by omega), Bytes.get_ofMem_of_lt _ inside,
    Nat.sub_zero]

/-- The loop over the blocks that are written whole. -/
theorem run_writeBlocks (buf : Mem) (off : Nat) (located : Located d s R ids)
    (inside : ∀ j, k ≤ j → j < k + n → R j) :
    ∃ s', (d.writeBlocks n (k : Int) off buf).run s = (true, s') ∧
      Filled R ids (4096 * k) (4096 * n) (fun i => buf (off + i)) s s' := by
  induction n generalizing k off s with
  | zero => exact ⟨s, rfl, .zero s⟩
  | succ n ih =>
    have here : R k := inside k (by omega) (by omega)
    have small := located.small k here
    have onDevice := located.onDevice k here
    have step := filled_block (fun p => buf (off + p)) 0 4096 located here (by omega)
    rw [blit_whole, Nat.add_zero] at step
    obtain ⟨s', run, rest⟩ := ih (k := k + 1) (off + 4096) (located.after step.touches)
      fun j lower upper => inside j (by omega) (by omega)
    refine ⟨s', ?_, ?_⟩
    · have next : (k : Int) + 1 = ((k + 1 : Nat) : Int) := by omega
      simp only [DiskInode.writeBlocks, DevProg.run_bind, uint32_natCast (show k < 4294967296 by omega),
        located.run_blockId here, DevProg.run_writeBlk_of_lt _ onDevice, if_true, next, run]
    · have shift : (fun i => buf (off + 4096 + i)) = fun i => buf (off + (4096 + i)) := by
        funext i
        rw [Nat.add_assoc]
      rw [shift, show 4096 * (k + 1) = 4096 * k + 4096 by omega] at rest
      rw [show 4096 * (n + 1) = 4096 + 4096 * n by omega]
      exact step.trans rest

/-! ### Offsets as `int` -/

theorem blockQuot_natCast {n : Nat} (small : n < 2147483648) :
    DiskInode.blockQuot (n : Int) = ((n / 4096 : Nat) : Int) := by
  have value : ((n : Int) % 18446744073709551616).toNat = n := by omega
  rw [DiskInode.blockQuot, value, int32_of_lt (by omega)]

theorem blockRem_natCast {n : Nat} (small : n < 2147483648) : DiskInode.blockRem (n : Int) = n % 4096 := by
  have value : ((n : Int) % 18446744073709551616).toNat = n := by omega
  rw [DiskInode.blockRem, value]

theorem copyLen_of_le {roff loff : Nat} (le : loff ≤ roff) (small : roff ≤ 4096) :
    DiskInode.copyLen roff loff = roff - loff := by
  rw [DiskInode.copyLen]
  omega

/-- Offsets from `2 ^ 31` on are negative as `int`, and far from any block as `uint32_t`. -/
theorem blockQuot_high {n : Nat} (high : 2147483648 ≤ n) (small : n < 4294967296) :
    DiskInode.blockQuot (int32 n) < 0 ∧ 1049623 ≤ uint32 (DiskInode.blockQuot (int32 n)) := by
  have value : int32 n = (n : Int) - 4294967296 := by
    rw [int32, Nat.mod_eq_of_lt small, if_neg (by omega)]
  have quot : (((n : Int) - 4294967296) % 18446744073709551616).toNat / 4096 =
      4503599626321920 + n / 4096 := by omega
  have back : int32 (4503599626321920 + n / 4096) = ((n / 4096 : Nat) : Int) - 1048576 := by
    have rem : (4503599626321920 + n / 4096) % 4294967296 = 4293918720 + n / 4096 := by omega
    rw [int32, rem, if_neg (by omega)]
    omega
  rw [DiskInode.blockQuot, value, quot, back]
  simp only [uint32]
  omega

theorem blockRem_high {n : Nat} (high : 2147483648 ≤ n) (small : n < 4294967296) :
    DiskInode.blockRem (int32 n) = n % 4096 := by
  have value : int32 n = (n : Int) - 4294967296 := by
    rw [int32, Nat.mod_eq_of_lt small, if_neg (by omega)]
  rw [DiskInode.blockRem, value]
  omega

theorem run_blockId_high {x : Nat} (high : 1049623 ≤ x) : (d.blockId x).run s = (kFailId, s) := by
  rw [DiskInode.blockId, if_pos high, DevProg.run_pure]

/-! ### Writing a range -/

/-- The last block of a write, when the write does not end with a block. -/
theorem run_writeLast (buf : Mem) (off len : Nat) (located : Located d s R ids) (inside : 0 < len → R k)
    (fits : len < 4096) (small : k < 4294967296) :
    ∃ s', (if 0 < len then do
          let rblk ← d.blockId (uint32 (k : Int))
          DiskInode.patchBlock rblk 0 len fun i => buf (off + i)
        else return true : Prog Bool).run s = (true, s') ∧
      Filled R ids (4096 * k) len (fun i => buf (off + i)) s s' := by
  by_cases some : 0 < len
  · have here := inside some
    rw [if_pos some, uint32_natCast small]
    simp only [DevProg.run_bind, located.run_blockId here, run_patchBlock (located.onDevice k here)]
    exact ⟨_, rfl, filled_block _ 0 len located here (by omega)⟩
  · rw [if_neg some, show len = 0 by omega]
    exact ⟨s, rfl, .zero s⟩

theorem run_writeRange (buf : Mem) {offset len : Nat} (located : Located d s R ids) (some : 0 < len)
    (small : offset + len < 2147483648)
    (inside : ∀ k, offset / 4096 ≤ k → 4096 * k < offset + len → R k) :
    ∃ s', (d.writeRange (int32 offset) (int32 (offset + len)) buf).run s = (true, s') ∧
      Filled R ids offset len buf s s' := by
  have first : R (offset / 4096) := inside _ (Nat.le_refl _) (by omega)
  have smallFirst := located.small _ first
  have start : 4096 * (offset / 4096) + offset % 4096 = offset := by omega
  rw [int32_of_lt (show offset < 2147483648 by omega), int32_of_lt small, DiskInode.writeRange,
    blockQuot_natCast (by omega), blockQuot_natCast small, blockRem_natCast (by omega),
    blockRem_natCast small, uint32_natCast (by omega)]
  simp only [DevProg.run_bind, located.run_blockId first]
  by_cases one : offset / 4096 = (offset + len) / 4096
  · have length : DiskInode.copyLen ((offset + len) % 4096) (offset % 4096) = len := by
      rw [copyLen_of_le (by omega) (by omega)]
      omega
    rw [if_pos (congrArg Nat.cast one), length, run_patchBlock (located.onDevice _ first)]
    refine ⟨_, rfl, ?_⟩
    have filled := filled_block buf (offset % 4096) len located first (by omega)
    rwa [start] at filled
  · have more : ¬ ((offset / 4096 : Nat) : Int) = (((offset + len) / 4096 : Nat) : Int) := by omega
    have whole : ((((offset + len) / 4096 : Nat) : Int) - (((offset / 4096 : Nat) : Int) + 1)).toNat =
        (offset + len) / 4096 - (offset / 4096 + 1) := by omega
    have next : ((offset / 4096 : Nat) : Int) + 1 = ((offset / 4096 + 1 : Nat) : Int) := by omega
    -- the first block, the blocks in the middle, the last block
    have head := filled_block buf (offset % 4096) (4096 - offset % 4096) located first (by omega)
    rw [start] at head
    have located₁ := located.after head.touches
    obtain ⟨s₂, run₂, middle⟩ := run_writeBlocks buf (4096 - offset % 4096)
      (k := offset / 4096 + 1) (n := (offset + len) / 4096 - (offset / 4096 + 1)) located₁
      fun j lower upper => inside j (by omega) (by omega)
    obtain ⟨s₃, run₃, last⟩ := run_writeLast buf
      (4096 - offset % 4096 + 4096 * ((offset + len) / 4096 - (offset / 4096 + 1)))
      ((offset + len) % 4096) (k := (offset + len) / 4096) (located₁.after middle.touches)
      (fun some => inside _ (by omega) (by omega)) (by omega) (by omega)
    refine ⟨s₃, ?_, ?_⟩
    · rw [if_neg more, whole, next]
      simp only [DevProg.run_bind, run_patchBlock (located.onDevice _ first), if_true, run₂]
      exact run₃
    · rw [show 4096 * (offset / 4096 + 1) = offset + (4096 - offset % 4096) by omega] at middle
      have joined := head.trans middle
      rw [show 4096 * ((offset + len) / 4096) = offset + (4096 - offset % 4096 +
        4096 * ((offset + len) / 4096 - (offset / 4096 + 1))) by omega] at last
      have all := joined.trans last
      rwa [show 4096 - offset % 4096 + 4096 * ((offset + len) / 4096 - (offset / 4096 + 1)) +
        (offset + len) % 4096 = len by omega] at all

theorem run_patchBlock_past {id off len : Nat} (past : s.count ≤ id) :
    (DiskInode.patchBlock id off len buf).run s = (false, s) := by
  simp only [DiskInode.patchBlock, DevProg.run_bind, DevProg.run_readBlk_of_ge past, DevProg.run_pure]

/-- A write that starts behind `2 ^ 31` does not find its first block. -/
theorem run_writeRange_past (buf : Mem) {offset : Nat} {r : Int} (high : 2147483648 ≤ offset)
    (small : offset < 4294967296) (failId : s.count ≤ kFailId) :
    (d.writeRange (int32 offset) r buf).run s = (false, s) := by
  obtain ⟨-, past⟩ := blockQuot_high high small
  simp only [DiskInode.writeRange, DevProg.run_bind, run_blockId_high past]
  split
  · rw [run_patchBlock_past failId]
  · simp only [DevProg.run_bind, run_patchBlock_past failId, Bool.false_eq_true, if_false,
      DevProg.run_pure]

/-- A write across `2 ^ 31` fills its first block; it succeeds if it ends with a block. -/
theorem run_writeRange_high (buf : Mem) {offset len : Nat} (located : Located d s R ids)
    (start : offset < 2147483648) (high : 2147483648 ≤ offset + len) (small : offset + len < 4294967296)
    (failId : s.count ≤ kFailId) (first : R (offset / 4096)) :
    (d.writeRange (int32 offset) (int32 (offset + len)) buf).run s =
      (decide ((offset + len) % 4096 = 0), s.put (ids (offset / 4096))
        ((s.blocks (ids (offset / 4096))).blit (offset % 4096) (4096 - offset % 4096) buf)) := by
  obtain ⟨negative, past⟩ := blockQuot_high high small
  rw [int32_of_lt start, DiskInode.writeRange, blockQuot_natCast start, blockRem_natCast start,
    uint32_natCast (by omega), blockRem_high high small]
  generalize DiskInode.blockQuot (int32 (offset + len)) = rid at negative past ⊢
  have other : ¬ ((offset / 4096 : Nat) : Int) = rid := by omega
  have whole : (rid - (((offset / 4096 : Nat) : Int) + 1)).toNat = 0 := by omega
  -- the loop in the middle makes no round, and the last block is not found
  simp only [DevProg.run_bind, located.run_blockId first, if_neg other, whole,
    run_patchBlock (located.onDevice _ first), if_true, DiskInode.writeBlocks, DevProg.run_pure]
  by_cases aligned : (offset + len) % 4096 = 0
  · rw [if_neg (by omega), DevProg.run_pure, decide_eq_true aligned]
  · rw [if_pos (by omega), decide_eq_false aligned]
    simp only [DevProg.run_bind, run_blockId_high past]
    exact run_patchBlock_past (by rw [Store.put_count]; exact failId)

/-- `DiskInode::write_data` copies the bytes when the range fits. -/
theorem run_writeRange_fits (buf : Mem) {offset len : Nat} (located : Located d s R ids) (some : 0 < len)
    (fits : FitsInt offset len) (failId : s.count ≤ kFailId)
    (inside : ∀ k, offset / 4096 ≤ k → 4096 * k < offset + len → R k) :
    ∃ s', (d.writeRange (int32 offset) (int32 (offset + len)) buf).run s = (true, s') ∧
      Filled R ids offset len buf s s' := by
  cases fits with
  | inl low => exact run_writeRange buf located some low inside
  | inr last =>
    have first : R (offset / 4096) := inside _ (Nat.le_refl _) (by omega)
    have head := filled_block buf (offset % 4096) (4096 - offset % 4096) located first (by omega)
    rw [show 4096 * (offset / 4096) + offset % 4096 = offset by omega] at head
    rw [show 4096 - offset % 4096 = len by omega] at head
    refine ⟨_, ?_, head⟩
    rw [run_writeRange_high buf located (by omega) (by omega) (by omega) failId first,
      decide_eq_true (show (offset + len) % 4096 = 0 by omega),
      show 4096 - offset % 4096 = len by omega]

/-- A write that ends before it starts, because its end wraps around, fills its first block. -/
theorem run_writeRange_backward (buf : Mem) {offset stop : Nat} (located : Located d s R ids)
    (start : offset < 2147483648) (back : stop < offset) (inside : ∀ k, k ≤ offset / 4096 → R k) :
    ∃ ok s', (d.writeRange (int32 offset) (int32 stop) buf).run s = (ok, s') ∧
      Touches (Listed R ids) s s' ∧
      ((∀ j k, R j → R k → ids j = ids k → j = k) → byteAt ids s'.blocks offset = buf 0) := by
  have first : R (offset / 4096) := inside _ (Nat.le_refl _)
  have onDevice := located.onDevice _ first
  rw [int32_of_lt start, int32_of_lt (by omega), DiskInode.writeRange, blockQuot_natCast start,
    blockQuot_natCast (show stop < 2147483648 by omega), blockRem_natCast start,
    blockRem_natCast (show stop < 2147483648 by omega), uint32_natCast (by omega)]
  simp only [DevProg.run_bind, located.run_blockId first]
  by_cases one : offset / 4096 = stop / 4096
  · -- the length that `memcpy` gets is negative, and huge
    have huge : 0 < DiskInode.copyLen (stop % 4096) (offset % 4096) := by
      rw [DiskInode.copyLen]
      omega
    rw [if_pos (congrArg Nat.cast one), run_patchBlock onDevice]
    refine ⟨_, _, rfl, .put _ _ ⟨_, first, rfl⟩, fun _ => ?_⟩
    rw [byteAt, Store.put_blocks_same _ _ onDevice, Bytes.get_blit _ _ (Nat.mod_lt _ (by decide)),
      splice_inside (Nat.le_refl _) (by omega), Nat.sub_self]
  · have more : ¬ ((offset / 4096 : Nat) : Int) = ((stop / 4096 : Nat) : Int) := by omega
    have whole : (((stop / 4096 : Nat) : Int) - (((offset / 4096 : Nat) : Int) + 1)).toNat = 0 := by omega
    have head := filled_block buf (offset % 4096) (4096 - offset % 4096) located first (by omega)
    rw [show 4096 * (offset / 4096) + offset % 4096 = offset by omega] at head
    have there : R (stop / 4096) := inside _ (by omega)
    obtain ⟨s', run, last⟩ := run_writeLast buf (4096 - offset % 4096 + 4096 * 0) (stop % 4096)
      (located.after head.touches) (fun _ => there) (Nat.mod_lt _ (by decide))
      (show stop / 4096 < 4294967296 by omega)
    refine ⟨true, s', ?_, head.touches.trans last.touches, fun inj => ?_⟩
    · simp only [if_neg more, whole, DevProg.run_bind, run_patchBlock onDevice, if_true,
        DiskInode.writeBlocks, DevProg.run_pure]
      exact run
    · rw [last.bytes inj offset first, splice_outside (by omega), head.bytes inj offset first,
        splice_inside (by omega) (by omega), Nat.sub_self]

/-- A write touches blocks of the range only, also when it fails half way because its end
does not fit into an `int`. -/
theorem run_writeRange_touches (buf : Mem) {offset len : Nat} (located : Located d s R ids) (some : 0 < len)
    (small : offset + len < 4294967296) (failId : s.count ≤ kFailId)
    (inside : ∀ k, offset / 4096 ≤ k → 4096 * k < offset + len → R k) :
    ∃ ok s', (d.writeRange (int32 offset) (int32 (offset + len)) buf).run s = (ok, s') ∧
      Touches (Listed R ids) s s' := by
  by_cases low : offset + len < 2147483648
  · obtain ⟨s', run, filled⟩ := run_writeRange buf located some low inside
    exact ⟨true, s', run, filled.touches⟩
  by_cases start : offset < 2147483648
  · have first : R (offset / 4096) := inside _ (Nat.le_refl _) (by omega)
    exact ⟨_, _, run_writeRange_high buf located start (by omega) small failId first,
      .put _ _ ⟨_, first, rfl⟩⟩
  · exact ⟨false, s, run_writeRange_past buf (by omega) (by omega) failId, .refl _ _⟩

/-! ## Reading -/

theorem splice_src {f g : Mem} {dst : Mem} (same : ∀ i, i < n → f i = g i) :
    splice dst l n f = splice dst l n g := by
  funext i
  by_cases copied : l ≤ i ∧ i < l + n
  · rw [splice_inside copied.1 copied.2, splice_inside copied.1 copied.2, same _ (by omega)]
  · rw [splice_outside (by omega), splice_outside (by omega)]

/-- The loop over the blocks that are read whole. -/
theorem run_readBlocks (buf : Mem) (off : Nat) (located : Located d s R ids)
    (inside : ∀ j, k ≤ j → j < k + n → R j) :
    (d.readBlocks n (k : Int) off buf).run s =
      ((true, splice buf off (4096 * n) fun i => byteAt ids s.blocks (4096 * k + i)), s) := by
  induction n generalizing k off buf with
  | zero => rw [Nat.mul_zero, splice_zero]; rfl
  | succ n ih =>
    have here : R k := inside k (by omega) (by omega)
    have small := located.small k here
    have next : (k : Int) + 1 = ((k + 1 : Nat) : Int) := by omega
    have rest := ih (k := k + 1) (splice buf off 4096 (s.blocks (ids k)).get)
      (off + 4096) fun j lower upper =>
        inside j (by omega) (by omega)
    simp only [DiskInode.readBlocks, DevProg.run_bind, uint32_natCast (show k < 4294967296 by omega),
      located.run_blockId here, DevProg.run_readBlk_of_lt (located.onDevice k here), next, rest]
    have block : splice buf off 4096 (s.blocks (ids k)).get =
        splice buf off 4096 fun i => byteAt ids s.blocks (4096 * k + i) :=
      splice_src fun i low => (byteAt_mem low _).symm
    have shift : (fun i => byteAt ids s.blocks (4096 * (k + 1) + i)) =
        fun i => byteAt ids s.blocks (4096 * k + (4096 + i)) := by
      funext i
      rw [show 4096 * (k + 1) + i = 4096 * k + (4096 + i) by omega]
    rw [block, shift, show 4096 * (n + 1) = 4096 + 4096 * n by omega, ← splice_splice]

/-- The last block of a read, when the read does not end with a block. -/
theorem run_readLast (buf : Mem) (off len : Nat) (located : Located d s R ids) (inside : 0 < len → R k)
    (fits : len < 4096) (small : k < 4294967296) :
    (if 0 < len then do
        let rblk ← d.blockId (uint32 (k : Int))
        match ← DevProg.readBlk rblk with
        | none => return (false, buf)
        | some blk => return (true, splice buf off len blk.get)
      else return (true, buf) : Prog (Bool × Mem)).run s =
      ((true, splice buf off len fun i => byteAt ids s.blocks (4096 * k + i)), s) := by
  by_cases some : 0 < len
  · have here := inside some
    rw [if_pos some, uint32_natCast small]
    simp only [DevProg.run_bind, located.run_blockId here,
      DevProg.run_readBlk_of_lt (located.onDevice k here), DevProg.run_pure]
    rw [splice_src fun i low => (byteAt_mem (show i < 4096 by omega) _).symm]
  · rw [if_neg some, show len = 0 by omega, splice_zero, DevProg.run_pure]

theorem run_readRange (buf : Mem) (offset len : Nat) (located : Located d s R ids) (some : 0 < len)
    (small : offset + len < 2147483648)
    (inside : ∀ k, offset / 4096 ≤ k → 4096 * k < offset + len → R k) :
    (d.readRange (int32 offset) (int32 (offset + len)) buf).run s =
      ((true, splice buf 0 len fun i => byteAt ids s.blocks (offset + i)), s) := by
  have first : R (offset / 4096) := inside _ (Nat.le_refl _) (by omega)
  have smallFirst := located.small _ first
  rw [int32_of_lt (show offset < 2147483648 by omega), int32_of_lt small, DiskInode.readRange,
    blockQuot_natCast (n := offset) (by omega), blockQuot_natCast small,
    blockRem_natCast (n := offset) (by omega), blockRem_natCast small, uint32_natCast (by omega)]
  have here : ∀ len, offset % 4096 + len ≤ 4096 →
      (splice buf 0 len fun i => (s.blocks (ids (offset / 4096))).get (offset % 4096 + i)) =
        splice buf 0 len fun i => byteAt ids s.blocks (offset + i) := by
    intro len fits
    refine splice_src fun i low => ?_
    rw [← byteAt_mem (show offset % 4096 + i < 4096 by omega)]
    congr 1
    omega
  simp only [DevProg.run_bind, located.run_blockId first,
    DevProg.run_readBlk_of_lt (located.onDevice _ first)]
  by_cases one : offset / 4096 = (offset + len) / 4096
  · -- the range lies in one block
    have length : DiskInode.copyLen ((offset + len) % 4096) (offset % 4096) = len := by
      rw [copyLen_of_le (by omega) (by omega)]
      omega
    rw [if_pos (congrArg Nat.cast one), length, DevProg.run_pure, here len (by omega)]
  · have more : ¬ ((offset / 4096 : Nat) : Int) = (((offset + len) / 4096 : Nat) : Int) := by omega
    have whole : ((((offset + len) / 4096 : Nat) : Int) - (((offset / 4096 : Nat) : Int) + 1)).toNat =
        (offset + len) / 4096 - (offset / 4096 + 1) := by omega
    have next : ((offset / 4096 : Nat) : Int) + 1 = ((offset / 4096 + 1 : Nat) : Int) := by omega
    -- the rest of the first block, the whole blocks and the head of the last one
    have middle := fun buf => run_readBlocks buf (4096 - offset % 4096)
      (k := offset / 4096 + 1) (n := (offset + len) / 4096 - (offset / 4096 + 1)) located
      fun j lower upper => inside j (by omega) (by omega)
    have last := fun buf => run_readLast buf
      (4096 - offset % 4096 + 4096 * ((offset + len) / 4096 - (offset / 4096 + 1)))
      ((offset + len) % 4096) (k := (offset + len) / 4096) located (fun some => inside _ (by omega) (by omega))
      (by omega) (by omega)
    rw [if_neg more, whole, next, here _ (by omega)]
    simp only [DevProg.run_bind, middle]
    refine (last _).trans ?_
    have shift : ∀ a b, 4096 * a = offset + b →
        (fun i => byteAt ids s.blocks (4096 * a + i)) = fun i => byteAt ids s.blocks (offset + (b + i)) := by
      intro a b same
      funext i
      rw [same, Nat.add_assoc]
    -- the three copies stand one behind the other in the buffer
    have join : ∀ a b, splice (splice buf 0 a fun i => byteAt ids s.blocks (offset + i)) a b
          (fun i => byteAt ids s.blocks (offset + (a + i))) =
        splice buf 0 (a + b) fun i => byteAt ids s.blocks (offset + i) := by
      intro a b
      rw [← splice_splice, Nat.zero_add]
    rw [shift (offset / 4096 + 1) (4096 - offset % 4096) (by omega), join,
      shift ((offset + len) / 4096)
        (4096 - offset % 4096 + 4096 * ((offset + len) / 4096 - (offset / 4096 + 1))) (by omega),
      join, show 4096 - offset % 4096 + 4096 * ((offset + len) / 4096 - (offset / 4096 + 1)) +
        (offset + len) % 4096 = len by omega]

/-- A read that starts behind `2 ^ 31` does not find its first block. -/
theorem run_readRange_past (buf : Mem) {offset : Nat} {r : Int} (high : 2147483648 ≤ offset)
    (small : offset < 4294967296) (failId : s.count ≤ kFailId) :
    (d.readRange (int32 offset) r buf).run s = ((false, buf), s) := by
  obtain ⟨-, past⟩ := blockQuot_high high small
  simp only [DiskInode.readRange, DevProg.run_bind, run_blockId_high past,
    DevProg.run_readBlk_of_ge failId, DevProg.run_pure]

/-- A read across `2 ^ 31` copies from its first block; it succeeds if it ends with a block. -/
theorem run_readRange_high (buf : Mem) {offset len : Nat} (located : Located d s R ids)
    (start : offset < 2147483648) (high : 2147483648 ≤ offset + len) (small : offset + len < 4294967296)
    (failId : s.count ≤ kFailId) (first : R (offset / 4096)) :
    (d.readRange (int32 offset) (int32 (offset + len)) buf).run s =
      ((decide ((offset + len) % 4096 = 0), splice buf 0 (4096 - offset % 4096) fun i =>
        byteAt ids s.blocks (offset + i)), s) := by
  obtain ⟨negative, past⟩ := blockQuot_high high small
  rw [int32_of_lt start, DiskInode.readRange, blockQuot_natCast start, blockRem_natCast start,
    uint32_natCast (by omega), blockRem_high high small]
  generalize DiskInode.blockQuot (int32 (offset + len)) = rid at negative past ⊢
  have other : ¬ ((offset / 4096 : Nat) : Int) = rid := by omega
  have whole : (rid - (((offset / 4096 : Nat) : Int) + 1)).toNat = 0 := by omega
  have here : (splice buf 0 (4096 - offset % 4096) fun i =>
        (s.blocks (ids (offset / 4096))).get (offset % 4096 + i)) =
      splice buf 0 (4096 - offset % 4096) fun i => byteAt ids s.blocks (offset + i) := by
    refine splice_src fun i low => ?_
    rw [← byteAt_mem (show offset % 4096 + i < 4096 by omega)]
    congr 1
    omega
  simp only [DevProg.run_bind, located.run_blockId first, if_neg other, whole,
    DevProg.run_readBlk_of_lt (located.onDevice _ first), DiskInode.readBlocks, DevProg.run_pure, here]
  by_cases aligned : (offset + len) % 4096 = 0
  · rw [if_neg (by omega), DevProg.run_pure, decide_eq_true aligned]
  · rw [if_pos (by omega), decide_eq_false aligned]
    simp only [DevProg.run_bind, run_blockId_high past, DevProg.run_readBlk_of_ge failId,
      DevProg.run_pure]

theorem run_readRange_fits (buf : Mem) (offset len : Nat) (located : Located d s R ids) (some : 0 < len)
    (fits : FitsInt offset len) (failId : s.count ≤ kFailId)
    (inside : ∀ k, offset / 4096 ≤ k → 4096 * k < offset + len → R k) :
    (d.readRange (int32 offset) (int32 (offset + len)) buf).run s =
      ((true, splice buf 0 len fun i => byteAt ids s.blocks (offset + i)), s) := by
  cases fits with
  | inl low => exact run_readRange buf offset len located some low inside
  | inr last =>
    have first : R (offset / 4096) := inside _ (Nat.le_refl _) (by omega)
    rw [run_readRange_high buf located (by omega) (by omega) (by omega) failId first,
      decide_eq_true (show (offset + len) % 4096 = 0 by omega),
      show 4096 - offset % 4096 = len by omega]

/-! ## `read_data` and `write_data` -/

theorem Located.retimed {d' : DiskInode} (located : Located d s R ids) (retimed : Retimed d d') :
    Located d' s R ids := by
  have same : ∀ k, d'.blockId k = d.blockId k := fun k => by
    rw [retimed]
    rfl
  exact ⟨located.onDevice, fun k inside s' touches => by rw [same, located.find k inside s' touches],
    located.small⟩

/-- Inside the file the length is not cut. -/
theorem cutLen_inside {offset len : Nat} (fits : offset + len ≤ d.size.toNat) :
    d.cutLen offset len = len := by
  have size := d.size.toNat_lt
  rw [DiskInode.cutLen, Nat.mod_eq_of_lt (by omega)]
  split <;> omega

theorem run_diskWriteData (buf : Mem) {offset len : Nat} (located : Located d s R ids) (some : 0 < len)
    (fits : offset + len ≤ d.size.toNat) (failId : s.count ≤ kFailId)
    (inside : ∀ k, offset / 4096 ≤ k → 4096 * k < offset + len → R k) :
    ∃ ret d' s', (d.writeData offset buf len).run s = ((ret, d'), s') ∧ Retimed d d' ∧
      Touches (Listed R ids) s s' ∧
      (FitsInt offset len → ret = len ∧ Filled R ids offset len buf s s') := by
  have size := d.size.toNat_lt
  obtain ⟨d₁, s₁, run₁, retimed, quiet⟩ := run_updateMeta d 3 s
  have blocks := quiet.quiet
  have quiet' : Touches (Listed R ids) s s₁ := quiet.mono fun _ => False.elim
  have size₁ : d₁.size = d.size := by rw [retimed]
  have located₁ := (located.after quiet').retimed retimed
  have empty : ¬ len = 0 := by omega
  have early : ¬ d₁.size.toNat < offset := by
    rw [size₁]
    omega
  have cut : d₁.cutLen offset len = len := cutLen_inside (size₁ ▸ fits)
  by_cases small : FitsInt offset len
  · obtain ⟨s', run, filled⟩ :=
      run_writeRange_fits buf located₁ some small (quiet.count ▸ failId) inside
    have lenSmall : len < 2147483648 := by
      rw [FitsInt] at small
      omega
    refine ⟨len, d₁, s', ?_, retimed, quiet'.trans filled.touches, fun _ => ⟨rfl, ?_⟩⟩
    · simp only [DiskInode.writeData, DevProg.run_bind, run₁, empty, early, if_false, cut, run, if_true,
        DevProg.run_pure, int32_of_lt lenSmall]
    · refine ⟨quiet'.trans filled.touches, fun inj i inR => ?_⟩
      rw [filled.bytes inj i inR, blocks]
  · obtain ⟨ok, s', run, touches⟩ := run_writeRange_touches buf located₁ some (by omega)
      (quiet.count ▸ failId) inside
    refine ⟨if ok then int32 len else -1, d₁, s', ?_, retimed, quiet'.trans touches,
      fun small' => absurd small' small⟩
    simp only [DiskInode.writeData, DevProg.run_bind, run₁, empty, early, if_false, cut, run]
    cases ok <;> rfl

theorem run_diskReadData (buf : Mem) {offset len : Nat} (located : Located d s R ids) (some : 0 < len)
    (start : offset < d.size.toNat) (fits : FitsInt offset (min len (d.size.toNat - offset)))
    (failId : s.count ≤ kFailId) (size32 : offset + len < 4294967296)
    (inside : ∀ k, 4096 * k < d.size.toNat → R k) :
    ∃ d' s', (d.readData offset len buf).run s =
        ((((min len (d.size.toNat - offset) : Nat) : Int),
          splice buf 0 (min len (d.size.toNat - offset)) fun i => byteAt ids s.blocks (offset + i), d'), s') ∧
      Retimed d d' ∧ Touches (fun _ => False) s s' := by
  obtain ⟨d₁, s₁, run₁, retimed, quiet⟩ := run_updateMeta d 1 s
  have blocks := quiet.quiet
  have quiet' : Touches (Listed R ids) s s₁ := quiet.mono fun _ => False.elim
  have size₁ : d₁.size = d.size := by rw [retimed]
  have located₁ := (located.after quiet').retimed retimed
  have empty : ¬ len = 0 := by omega
  have early : ¬ d₁.size.toNat < offset := by
    rw [size₁]
    omega
  have cut : d₁.cutLen offset len = min len (d.size.toNat - offset) := by
    rw [DiskInode.cutLen, size₁, Nat.mod_eq_of_lt size32]
    split <;> omega
  have run := run_readRange_fits buf offset (min len (d.size.toNat - offset)) located₁ (by omega) fits
    (quiet.count ▸ failId) fun k _ upper => inside k (by omega)
  have lenSmall : min len (d.size.toNat - offset) < 2147483648 := by
    rw [FitsInt] at fits
    omega
  refine ⟨d₁, s₁, ?_, retimed, quiet⟩
  simp only [DiskInode.readData, DevProg.run_bind, run₁, empty, early, if_false, cut, run,
    DevProg.run_pure, int32_of_lt lenSmall, blocks]

theorem run_blockId_same (k : Nat) : ((d.blockId k).run s).2 = s := by
  rw [DiskInode.blockId]
  split
  · rfl
  split
  · rfl
  split
  · simp only [DevProg.run_bind, DevProg.run_readBlk]
    split <;> rfl
  · simp only [DevProg.run_bind, DevProg.run_readBlk]
    split
    · rfl
    · simp only [DevProg.run_bind, DevProg.run_readBlk]
      split <;> rfl

/-- A read of no byte still looks a block up, which need not be there. -/
theorem run_readRange_none (buf : Mem) (l : Int) :
    ∃ ok, (d.readRange l l buf).run s = ((ok, buf), s) := by
  have empty : DiskInode.copyLen (DiskInode.blockRem l) (DiskInode.blockRem l) = 0 := by
    rw [DiskInode.copyLen, Int.sub_self]
    rfl
  simp only [DiskInode.readRange, DevProg.run_bind, run_blockId_same, DevProg.run_readBlk, if_true, empty,
    splice_zero]
  split
  · exact ⟨false, rfl⟩
  · exact ⟨true, rfl⟩

/-- Behind `2 ^ 31`, or from the end of the file on, a read returns no byte. -/
theorem run_diskReadData_nothing (buf : Mem) {offset len : Nat} (some : 0 < len) (small : offset < 4294967296)
    (failId : s.count ≤ kFailId)
    (bad : d.size.toNat < offset ∨ 2147483648 ≤ offset ∨
      d.size.toNat = offset ∧ offset + len < 4294967296) :
    ∃ ret d' s', (d.readData offset len buf).run s = ((ret, buf, d'), s') ∧ ret ≤ 0 ∧
      Retimed d d' ∧ Touches (fun _ => False) s s' := by
  obtain ⟨d₁, s₁, run₁, retimed, quiet⟩ := run_updateMeta d 1 s
  have size₁ : d₁.size = d.size := by rw [retimed]
  have empty : ¬ len = 0 := by omega
  by_cases early : d₁.size.toNat < offset
  · refine ⟨-1, d₁, s₁, ?_, by decide, retimed, quiet⟩
    simp only [DiskInode.readData, DevProg.run_bind, run₁, empty, early, if_true, if_false,
      DevProg.run_pure]
  by_cases high : 2147483648 ≤ offset
  · refine ⟨-1, d₁, s₁, ?_, by decide, retimed, quiet⟩
    simp only [DiskInode.readData, DevProg.run_bind, run₁, empty, early, if_false,
      run_readRange_past buf high small (quiet.count ▸ failId), DevProg.run_pure]
  · have atEnd : d.size.toNat = offset ∧ offset + len < 4294967296 := by
      rw [size₁] at early
      omega
    have cut : d₁.cutLen offset len = 0 := by
      rw [DiskInode.cutLen, size₁, Nat.mod_eq_of_lt atEnd.2, if_pos (by omega)]
      omega
    obtain ⟨ok, run⟩ := run_readRange_none (d := d₁) (s := s₁) buf (int32 offset)
    refine ⟨if ok then 0 else -1, d₁, s₁, ?_, ?_, retimed, quiet⟩
    · simp only [DiskInode.readData, DevProg.run_bind, run₁, empty, early, if_false, cut, Nat.add_zero, run]
      cases ok <;> rfl
    · cases ok <;> decide

end

end Sbfs
