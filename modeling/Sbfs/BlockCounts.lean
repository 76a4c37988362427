import Sbfs.Format
import Mathlib.Data.Set.Card

/-! # What `total_blocks` counts

`growSlots` says what `increase` allocates, and `total_blocks` is meant to be the number of
these slots.  The two agree except where a level of the block map is exactly full: the
formula then counts index blocks of the next level that `increase` has no need of yet
(`totalBlocks_counts_iff`). -/

namespace Sbfs

open Slot

/-! ## Slots -/

/-- The index blocks over `n` data blocks. -/
def indexCount (n : Nat) : Nat :=
  (if 23 < n then 1 else 0) + (if 1047 < n then 1 + (n - 1047 + 1023) / 1024 else 0)

/-- A group begins at every multiple of 1024. -/
theorem groupSlots_lengths (k : Nat) :
    ((List.range' 1047 k).flatMap groupSlots).length = k + (k + 1023) / 1024 := by
  induction k with
  | zero => rfl
  | succ k ih =>
    rw [List.range'_concat, List.flatMap_append, List.length_append, ih, List.flatMap_singleton,
      groupSlots_length, Nat.one_mul, Nat.add_sub_cancel_left]
    split <;> omega

theorem growSlots_length (n : Nat) : (growSlots 0 n).length = n + indexCount n := by
  rw [growSlots, indexCount, List.length_append, List.length_append, List.length_map,
    List.length_range', if_pos (Nat.zero_le 23), if_pos (Nat.zero_le 1047)]
  by_cases one : 23 < n
  · by_cases two : 1047 < n
    · have groups := groupSlots_lengths (n - 1047)
      simp only [one, two, if_true, List.length_append, List.length_cons, List.length_nil,
        List.length_map, List.length_range', Nat.zero_max, groups]
      omega
    · simp only [one, two, if_true, if_false, List.length_append, List.length_cons, List.length_nil,
        List.length_map, List.length_range', Nat.zero_max]
      omega
  · have two : ¬ 1047 < n := by omega
    simp only [one, two, if_false, List.length_nil]
    omega

/-- The formula against the number of slots. -/
theorem totalBlocks_eq_iff (size : Nat) :
    DiskInode.totalBlocks size = dataBlocks size + indexCount (dataBlocks size) ↔
      dataBlocks size ≠ 23 ∧ dataBlocks size ≠ 1047 := by
  rw [DiskInode.totalBlocks, indexCount]
  generalize dataBlocks size = n
  by_cases one : 23 < n
  · by_cases two : 1047 < n
    · simp only [one, two, if_true, show ¬ n < 23 by omega, show ¬ n - 23 < 1024 by omega, if_false]
      omega
    · simp only [one, two, if_true, show ¬ n < 23 by omega, if_false]
      split <;> omega
  · simp only [one, show ¬ 1047 < n by omega, if_false]
    split
    · omega
    · split <;> omega

/-- The index blocks as slots. -/
def indexSlots (n : Nat) : List Slot :=
  (if 23 < n then [ind1] else []) ++
    if 1047 < n then ind2 :: (List.range ((n - 1047 + 1023) / 1024)).map second else []

theorem mem_indexSlots {n : Nat} {x : Slot} : x ∈ indexSlots n ↔ x.isIndex = true ∧ Valid n x := by
  have choose : ∀ (p : Prop) [Decidable p] (l : List Slot), x ∈ (if p then l else []) ↔ p ∧ x ∈ l := by
    intro p _ l
    split <;> simp [*]
  rw [indexSlots, List.mem_append, choose, choose, List.mem_singleton, List.mem_cons, List.mem_map]
  cases x with
  | data k => simp [isIndex]
  | ind1 => simp [isIndex, Valid]
  | ind2 => simp [isIndex, Valid]
  | second q =>
    simp only [isIndex, Valid, List.mem_range, second.injEq, exists_eq_right, reduceCtorEq, false_or,
      and_false, true_and]
    omega

theorem nodup_indexSlots (n : Nat) : (indexSlots n).Nodup := by
  have seconds : ∀ k, ((List.range k).map second).Nodup := fun k =>
    List.nodup_range.map fun _ _ same => second.inj same
  rw [indexSlots]
  split <;> split <;> simp [seconds]

/-- How many index blocks an inode owns. -/
theorem ncard_index (d : DiskInode) :
    {x | x.isIndex = true ∧ d.Owns x}.ncard = indexCount (dataBlocks d.size.toNat) := by
  have list : {x | x.isIndex = true ∧ d.Owns x} =
      ((indexSlots (dataBlocks d.size.toNat)).toFinset : Set Slot) := by
    ext x
    rw [Finset.mem_coe, List.mem_toFinset, mem_indexSlots]
    rfl
  rw [list, Set.ncard_coe_finset, List.toFinset_card_of_nodup (nodup_indexSlots _), indexSlots, indexCount,
    List.length_append]
  congr 1
  · split <;> rfl
  · split
    · rw [List.length_cons, List.length_map, List.length_range, Nat.add_comm]
    · rfl

/-! ## Bits -/

/-- How many bits of the bitmap are set. -/
def Bitmap.setBits (bm : Bitmap) (D : Nat → Block) : Nat := (List.range bm.capacity).countP (bm.bit D)

theorem Bitmap.setBits_add_free (bm : Bitmap) (D : Nat → Block) :
    bm.setBits D + (bm.freeIds D).length = bm.capacity := by
  have parts := List.length_eq_countP_add_countP (l := List.range bm.capacity) (bm.bit D)
  have clear : (List.range bm.capacity).countP (fun i => decide ¬bm.bit D i = true) =
      (List.range bm.capacity).countP fun i => !bm.bit D i := List.countP_congr fun i _ => by simp
  rw [List.length_range, clear] at parts
  rw [setBits, freeIds, List.length_map, freeBits, ← List.countP_eq_length_filter]
  exact parts.symm

/-- The bits that a growth sets are those of the new slots. -/
theorem Resized.setBits {bm : Bitmap} {newSize : Nat} {inode : Option Position} {d d' : DiskInode}
    {s s' : Disk} (resized : Resized bm newSize inode d s d' s') (grow : d.size.toNat ≤ newSize) :
    bm.setBits s'.blocks = bm.setBits s.blocks + growth d newSize := by
  have takes := congrArg List.length (resized.takes grow)
  rw [List.length_append, List.length_map] at takes
  have before := bm.setBits_add_free s.blocks
  have after := bm.setBits_add_free s'.blocks
  rw [growth]
  omega

/-- For every size, with an empty inode and enough free blocks: `resize` succeeds, and
`total_blocks` is the number of bits that it sets, and the number of data blocks and owned
index blocks, exactly when neither the direct pointers nor `indirect1` are just full. -/
theorem totalBlocks_counts_iff (L : Layout) {d : DiskInode} {s : Disk} {size : Nat}
    (device : L.areaEnd ≤ s.count) (empty : d.Empty) (size32 : size < 4294967296)
    (enough : growth d size ≤ (L.formatted.dataBitmap.freeIds s.blocks).length) :
    ∃ d' s', (d.resize size L.formatted.dataBitmap none).run s = ((.kSuccess, d'), s') ∧
      (L.formatted.dataBitmap.setBits s'.blocks =
          L.formatted.dataBitmap.setBits s.blocks + DiskInode.totalBlocks size ↔
        dataBlocks size ≠ 23 ∧ dataBlocks size ≠ 1047) ∧
      (DiskInode.totalBlocks size = dataBlocks size + {x | x.isIndex = true ∧ d'.Owns x}.ncard ↔
        dataBlocks size ≠ 23 ∧ dataBlocks size ≠ 1047) := by
  have inv := empty.history (L := L) device
  obtain ⟨d', s', run, resized⟩ := run_resize inv.map inv.segment size32 enough
    fun pos (some : none = some pos) => by cases some
  have none : d.size.toNat = 0 := by rw [empty.size]; rfl
  have grows : growth d size = dataBlocks size + indexCount (dataBlocks size) := by
    rw [growth, none]
    exact growSlots_length _
  refine ⟨d', s', run, ?_, ?_⟩
  · rw [resized.setBits (by omega), grows, ← totalBlocks_eq_iff, Nat.add_right_inj]
    exact eq_comm
  · rw [ncard_index, resized.size]
    exact totalBlocks_eq_iff size

/-! ### A file of 23 blocks -/

/-- On the default disk after `create` no data block has been taken. -/
theorem blankImage_free :
    (Layout.default.formatted.dataBitmap.freeIds blankImage.blocks).length = 4161536 := by
  have all := Layout.default.formatted.dataBitmap.setBits_add_free blankImage.blocks
  have none : Layout.default.formatted.dataBitmap.setBits blankImage.blocks = 0 :=
    List.countP_eq_zero.mpr fun i member => by
      simp [Bitmap.bit, blankImage, Bytes.bit]
  have room : Layout.default.formatted.dataBitmap.capacity = 4161536 := by decide
  rw [none, room] at all
  omega

theorem blankImage_enough : growth emptyFile 94208 ≤
    (Layout.default.formatted.dataBitmap.freeIds blankImage.blocks).length := by
  have small : growth emptyFile 94208 = 23 := by decide
  rw [blankImage_free, small]
  decide

/-- A file of 94208 bytes takes 23 blocks, and `total_blocks` says 24. -/
theorem totalBlocks_full_direct : ∃ d' s',
    (emptyFile.resize 94208 Layout.default.formatted.dataBitmap none).run blankImage =
      ((.kSuccess, d'), s') ∧
    Layout.default.formatted.dataBitmap.setBits s'.blocks =
      Layout.default.formatted.dataBitmap.setBits blankImage.blocks + 23 ∧
    DiskInode.totalBlocks 94208 = 24 := by
  have empty : emptyFile.Empty := ⟨rfl, rfl, rfl, rfl⟩
  have inv := empty.history (L := Layout.default) (s := blankImage) (by decide)
  obtain ⟨d', s', run, resized⟩ := run_resize inv.map inv.segment (by decide) blankImage_enough
    fun pos (some : none = some pos) => by cases some
  refine ⟨d', s', run, ?_, by decide⟩
  rw [resized.setBits (by decide)]
  congr 1

theorem totalBlocks_counts_iff_blank : ∃ d' s',
    (emptyFile.resize 94208 Layout.default.formatted.dataBitmap none).run blankImage =
      ((.kSuccess, d'), s') ∧
    ¬ Layout.default.formatted.dataBitmap.setBits s'.blocks =
      Layout.default.formatted.dataBitmap.setBits blankImage.blocks + DiskInode.totalBlocks 94208 := by
  obtain ⟨d', s', run, bits, -⟩ := totalBlocks_counts_iff Layout.default (d := emptyFile)
    (s := blankImage) (by decide) ⟨rfl, rfl, rfl, rfl⟩ (by decide) blankImage_enough
  exact ⟨d', s', run, fun same => (bits.mp same).1 (by decide)⟩

end Sbfs
