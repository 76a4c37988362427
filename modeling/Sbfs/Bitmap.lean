import Sbfs.FsLayout
import Mathlib.Data.List.Nodup
import Mathlib.Data.List.Range

/-! # The bitmap allocator

`bitmap.cpp`.  The code walks over device blocks, 64-bit words and bits; the
specifications `run_alloc_some`, `run_alloc_none` and `run_free` speak of the bits
of the whole bitmap, numbered from 0. -/

namespace Sbfs

/-! ## Words -/

/-- `__builtin_ctzll`. -/
def ctzll (x : Nat) : Option Nat := (List.range 64).find? fun k => x.testBit k

/-- `leading_zero`: the lowest clear bit of a 64-bit word; `none` is the result `-1`. -/
def leadingZero (x : Nat) : Option Nat :=
  if x = 18446744073709551615 then none else ctzll (x ^^^ 18446744073709551615)

theorem testBit_max (k : Nat) : Nat.testBit 18446744073709551615 k = decide (k < 64) := by
  have h := Nat.testBit_two_pow_sub_one 64 k
  simpa using h

theorem leadingZero_none {x : Nat} (small : x < 2 ^ 64)
    (full : ∀ k, k < 64 → x.testBit k = true) : leadingZero x = none := by
  have isMax : x = 18446744073709551615 := by
    apply Nat.eq_of_testBit_eq
    intro k
    rw [testBit_max]
    by_cases h : k < 64
    · simp [full k h, h]
    · have : x < 2 ^ k := Nat.lt_of_lt_of_le small (Nat.pow_le_pow_right (by omega) (by omega))
      simp [Nat.testBit_lt_two_pow this, h]
  rw [leadingZero, if_pos isMax]

theorem leadingZero_some {x k : Nat} (inside : k < 64) (clear : x.testBit k = false)
    (below : ∀ i, i < k → x.testBit i = true) : leadingZero x = some k := by
  have notMax : x ≠ 18446744073709551615 := by
    rintro rfl
    simp [testBit_max, inside] at clear
  rw [leadingZero, if_neg notMax, ctzll, List.find?_range_eq_some]
  refine ⟨by simp [Nat.testBit_xor, testBit_max, clear, inside], by simpa using inside, ?_⟩
  intro i h
  simp [Nat.testBit_xor, testBit_max, below i h, show i < 64 by omega]

/-- Word `j` of a bitmap block. -/
def word (blk : Block) (j : Nat) : Nat := blk.getLE 8 (8 * j)

theorem testBit_word (blk : Block) {j k : Nat} (h : k < 64) :
    (word blk j).testBit k = blk.bit (64 * j + k) := by
  rw [word, Bytes.testBit_getLE _ (by omega)]
  congr 1
  omega

theorem word_lt (blk : Block) (j : Nat) : word blk j < 2 ^ 64 := blk.getLE_lt 8 _

/-- `p[j] |= (1ul << k)`. -/
def setWordBit (blk : Block) (j k : Nat) : Block := blk.setLE 8 (8 * j) (word blk j ||| 2 ^ k)

/-- `p[j] &= ~(1ul << k)`. -/
def clearWordBit (blk : Block) (j k : Nat) : Block :=
  blk.setLE 8 (8 * j) (word blk j &&& (18446744073709551615 ^^^ 2 ^ k))

theorem bit_setWordBit (blk : Block) {j k t : Nat} (word_inside : j < 512) (inside : k < 64) :
    (setWordBit blk j k).bit t = (decide (t = 64 * j + k) || blk.bit t) := by
  have small : word blk j ||| 2 ^ k < 256 ^ 8 :=
    Nat.or_lt_two_pow (n := 64) (word_lt blk j) (Nat.pow_lt_pow_right (by omega) inside)
  rw [setWordBit, Bytes.bit_setLE _ (by omega) small]
  split
  next here =>
    rw [Nat.testBit_or, testBit_word blk (by omega), Nat.testBit_two_pow, Bool.or_comm]
    have split : 64 * j + (t - 8 * (8 * j)) = t := by omega
    rw [split]
    congr 1
    simp only [decide_eq_decide]
    omega
  next away =>
    have ne : t ≠ 64 * j + k := by omega
    simp [ne]

theorem bit_clearWordBit (blk : Block) {j k t : Nat} (word_inside : j < 512) (inside : k < 64) :
    (clearWordBit blk j k).bit t = (!decide (t = 64 * j + k) && blk.bit t) := by
  have small : word blk j &&& (18446744073709551615 ^^^ 2 ^ k) < 256 ^ 8 :=
    Nat.lt_of_le_of_lt Nat.and_le_left (word_lt blk j)
  rw [clearWordBit, Bytes.bit_setLE _ (by omega) small]
  split
  next here =>
    rw [Nat.testBit_and, testBit_word blk (by omega), Nat.testBit_xor, testBit_max,
      Nat.testBit_two_pow, Bool.and_comm]
    have split : 64 * j + (t - 8 * (8 * j)) = t := by omega
    have low : t - 8 * (8 * j) < 64 := by omega
    rw [split, decide_eq_true low, Bool.true_xor]
    congr 2
    simp only [decide_eq_decide]
    omega
  next away =>
    have ne : t ≠ 64 * j + k := by omega
    simp [ne]

/-! ## The two operations -/

/-- The first word from `j` on with a clear bit, and the lowest clear bit in it. -/
def findFreeFrom (buf : Block) : Nat → Nat → Option (Nat × Nat)
  | 0, _ => none
  | n + 1, j =>
    match leadingZero (word buf j) with
    | some k => some (j, k)
    | none => findFreeFrom buf n (j + 1)

def findFree (buf : Block) : Option (Nat × Nat) := findFreeFrom buf 512 0

namespace Bitmap

/-- The loop of `Bitmap::alloc` over the device blocks from `i` on. -/
def allocFrom (bm : Bitmap) : Nat → Nat → Prog Nat
  | 0, _ => return kFailId
  | n + 1, i => do
    match ← DevProg.readBlk ((bm.startBlockId + i) % 4294967296) with
    | none => return kFailId
    | some buf =>
      match findFree buf with
      | none => allocFrom bm n (i + 1)
      | some (j, k) =>
        if ← DevProg.writeBlk ((bm.startBlockId + i) % 4294967296) (setWordBit buf j k) then
          return (i * 32768 + j * 64 + k + bm.dataSegmentOffset) % 4294967296
        else return kFailId

/-- `Bitmap::alloc`. -/
def alloc (bm : Bitmap) : Prog Nat := bm.allocFrom bm.numBlocks 0

/-- `Bitmap::free`; the subtraction wraps, and nothing checks the quotient. -/
def free (bm : Bitmap) (blockId : Nat) : Prog Ret := do
  let id := (blockId + 4294967296 - bm.dataSegmentOffset) % 4294967296
  let target := (bm.startBlockId + id / 32768) % 4294967296
  match ← DevProg.readBlk target with
  | none => return .kFail
  | some buf =>
    if ← DevProg.writeBlk target (clearWordBit buf (id % 32768 / 64) (id % 32768 % 64)) then
      return .kSuccess
    else return .kFail

/-! ## The bits of a bitmap -/

/-- How many bits the bitmap has. -/
def capacity (bm : Bitmap) : Nat := bm.numBlocks * 32768

/-- Bit `i` of the bitmap on the device content `blocks`. -/
def bit (bm : Bitmap) (blocks : Nat → Block) (i : Nat) : Bool :=
  (blocks (bm.startBlockId + i / 32768)).bit (i % 32768)

/-- The device blocks of the bitmap. -/
def Holds (bm : Bitmap) (b : Nat) : Prop :=
  bm.startBlockId ≤ b ∧ b < bm.startBlockId + bm.numBlocks

/-- The bitmap lies on a device of `count` blocks. -/
structure Fits (bm : Bitmap) (count : Nat) : Prop where
  onDevice : bm.startBlockId + bm.numBlocks ≤ count
  small : bm.startBlockId + bm.numBlocks ≤ 4294967296

/-- The bits depend on the blocks of the bitmap only. -/
theorem bit_congr {bm : Bitmap} {D D' : Nat → Block} (same : ∀ b, bm.Holds b → D' b = D b) {i : Nat}
    (inside : i < bm.capacity) : bm.bit D' i = bm.bit D i := by
  rw [capacity] at inside
  rw [bit, bit, same]
  exact ⟨by omega, by omega⟩

/-- The device block of bit `i`. -/
theorem holds_of_lt {bm : Bitmap} {i : Nat} (inside : i < bm.capacity) :
    bm.Holds (bm.startBlockId + i / 32768) := by
  rw [capacity] at inside
  exact ⟨by omega, by omega⟩

/-- The bits after the block of bit `a` is replaced. -/
theorem bit_put {bm : Bitmap} {s : Disk} (fits : bm.Fits s.count) {a : Nat}
    (inside : a < bm.capacity) {blk : Block} {v : Bool}
    (bits : ∀ t, blk.bit t = if t = a % 32768 then v
      else (s.blocks (bm.startBlockId + a / 32768)).bit t) (i : Nat) :
    bm.bit (s.put (bm.startBlockId + a / 32768) blk).blocks i =
      if i = a then v else bm.bit s.blocks i := by
  have onDevice : bm.startBlockId + a / 32768 < s.count := by
    have := holds_of_lt inside
    have := fits.onDevice
    obtain ⟨-, upper⟩ := holds_of_lt inside
    omega
  by_cases sameBlock : i / 32768 = a / 32768
  · rw [bit, sameBlock, s.put_blocks_same blk onDevice, bits]
    by_cases same : i = a
    · simp [same]
    · rw [if_neg (by omega), if_neg same, bit, sameBlock]
  · rw [bit, s.put_blocks_ne blk (by omega), if_neg (by rintro rfl; exact sameBlock rfl), bit]

end Bitmap

/-! ## What the scans find -/

theorem findFreeFrom_none {buf : Block} {n j : Nat}
    (full : ∀ t, 64 * j ≤ t → t < 64 * (j + n) → buf.bit t = true) : findFreeFrom buf n j = none := by
  induction n generalizing j with
  | zero => rfl
  | succ n ih =>
    have here : leadingZero (word buf j) = none := by
      refine leadingZero_none (word_lt buf j) fun k h => ?_
      rw [testBit_word buf h]
      exact full _ (by omega) (by omega)
    simp only [findFreeFrom, here]
    exact ih fun t lo hi => full t (by omega) (by omega)

theorem findFreeFrom_some {buf : Block} {n j t : Nat} (lower : 64 * j ≤ t) (upper : t < 64 * (j + n))
    (clear : buf.bit t = false) (below : ∀ i, 64 * j ≤ i → i < t → buf.bit i = true) :
    findFreeFrom buf n j = some (t / 64, t % 64) := by
  induction n generalizing j with
  | zero => omega
  | succ n ih =>
    by_cases here : t < 64 * (j + 1)
    · have found : leadingZero (word buf j) = some (t % 64) := by
        refine leadingZero_some (by omega) ?_ fun i h => ?_
        · rw [testBit_word buf (by omega), ← clear]
          congr 1
          omega
        · rw [testBit_word buf (by omega)]
          exact below _ (by omega) (by omega)
      simp only [findFreeFrom, found, Option.some.injEq, Prod.mk.injEq, and_true]
      omega
    · have full : leadingZero (word buf j) = none := by
        refine leadingZero_none (word_lt buf j) fun k h => ?_
        rw [testBit_word buf h]
        exact below _ (by omega) (by omega)
      simp only [findFreeFrom, full]
      exact ih (by omega) (by omega) fun i lo hi => below i (by omega) hi

namespace Bitmap

variable {bm : Bitmap} {s : Disk}

theorem run_allocFrom_none (fits : bm.Fits s.count) {n i : Nat} (bound : i + n = bm.numBlocks)
    (full : ∀ t, 32768 * i ≤ t → t < bm.capacity → bm.bit s.blocks t = true) :
    (bm.allocFrom n i).run s = (kFailId, s) := by
  induction n generalizing i with
  | zero => rfl
  | succ n ih =>
    have small := fits.small
    have onDevice := fits.onDevice
    have wrap : (bm.startBlockId + i) % 4294967296 = bm.startBlockId + i :=
      Nat.mod_eq_of_lt (by omega)
    have blockFull : findFree (s.blocks (bm.startBlockId + i)) = none := by
      refine findFreeFrom_none fun t _ h => ?_
      have := full (32768 * i + t) (by omega) (by rw [capacity]; omega)
      rwa [bit, show (32768 * i + t) / 32768 = i by omega,
        show (32768 * i + t) % 32768 = t by omega] at this
    simp only [allocFrom, DevProg.run_bind, wrap,
      DevProg.run_readBlk_of_lt (show bm.startBlockId + i < s.count by omega), blockFull]
    exact ih (by omega) fun t lo hi => full t (by omega) hi

theorem run_allocFrom_some (fits : bm.Fits s.count) {n i a : Nat} (bound : i + n = bm.numBlocks)
    (lower : 32768 * i ≤ a) (inside : a < bm.capacity) (clear : bm.bit s.blocks a = false)
    (below : ∀ t, 32768 * i ≤ t → t < a → bm.bit s.blocks t = true) :
    (bm.allocFrom n i).run s = ((bm.dataSegmentOffset + a) % 4294967296,
      s.put (bm.startBlockId + a / 32768)
        (setWordBit (s.blocks (bm.startBlockId + a / 32768)) (a % 32768 / 64) (a % 64))) := by
  induction n generalizing i with
  | zero =>
    rw [capacity] at inside
    omega
  | succ n ih =>
    have small := fits.small
    have onDevice := fits.onDevice
    have wrap : (bm.startBlockId + i) % 4294967296 = bm.startBlockId + i :=
      Nat.mod_eq_of_lt (by omega)
    have reads := DevProg.run_readBlk_of_lt (show bm.startBlockId + i < s.count by omega)
    by_cases here : a < 32768 * (i + 1)
    · have quot : a / 32768 = i := by omega
      have found : findFree (s.blocks (bm.startBlockId + i)) =
          some (a % 32768 / 64, a % 64) := by
        rw [show a % 64 = a % 32768 % 64 by omega]
        refine findFreeFrom_some (by omega) (by omega) ?_ fun t _ h => ?_
        · rwa [bit, quot] at clear
        · have := below (32768 * i + t) (by omega) (by omega)
          rwa [bit, show (32768 * i + t) / 32768 = i by omega,
            show (32768 * i + t) % 32768 = t by omega] at this
      have value : i * 32768 + a % 32768 / 64 * 64 + a % 64 + bm.dataSegmentOffset =
          bm.dataSegmentOffset + a := by omega
      simp only [allocFrom, DevProg.run_bind, wrap, reads, found, quot,
        DevProg.run_writeBlk_of_lt _ (show bm.startBlockId + i < s.count by omega), if_true,
        DevProg.run_pure, value]
    · have blockFull : findFree (s.blocks (bm.startBlockId + i)) = none := by
        refine findFreeFrom_none fun t _ h => ?_
        have := below (32768 * i + t) (by omega) (by omega)
        rwa [bit, show (32768 * i + t) / 32768 = i by omega,
          show (32768 * i + t) % 32768 = t by omega] at this
      simp only [allocFrom, DevProg.run_bind, wrap, reads, blockFull]
      exact ih (by omega) (by omega) fun t lo hi => below t (by omega) hi

/-- With every bit set, `alloc` fails and changes nothing. -/
theorem run_alloc_none (fits : bm.Fits s.count)
    (full : ∀ t, t < bm.capacity → bm.bit s.blocks t = true) :
    bm.alloc.run s = (kFailId, s) :=
  run_allocFrom_none fits (by omega) fun t _ => full t

/-- The block of bit `a` with that bit set. -/
def markedBlock (bm : Bitmap) (s : Disk) (a : Nat) : Block :=
  setWordBit (s.blocks (bm.startBlockId + a / 32768)) (a % 32768 / 64) (a % 64)

/-- The store after bit `a` has been set. -/
def mark (bm : Bitmap) (s : Disk) (a : Nat) : Disk :=
  s.put (bm.startBlockId + a / 32768) (bm.markedBlock s a)

/-- `alloc` takes the lowest clear bit. -/
theorem run_alloc_some (fits : bm.Fits s.count) {a : Nat} (inside : a < bm.capacity)
    (clear : bm.bit s.blocks a = false) (below : ∀ t, t < a → bm.bit s.blocks t = true) :
    bm.alloc.run s = ((bm.dataSegmentOffset + a) % 4294967296, bm.mark s a) :=
  run_allocFrom_some fits (by omega) (by omega) inside clear fun t _ => below t

theorem bit_mark (fits : bm.Fits s.count) {a : Nat} (inside : a < bm.capacity) (i : Nat) :
    bm.bit (bm.mark s a).blocks i = (decide (i = a) || bm.bit s.blocks i) := by
  rw [mark, bit_put fits inside (v := true)]
  · by_cases same : i = a <;> simp [same]
  · intro t
    rw [markedBlock, bit_setWordBit _ (by omega) (by omega)]
    have same : 64 * (a % 32768 / 64) + a % 64 = a % 32768 := by omega
    rw [same]
    by_cases h : t = a % 32768 <;> simp [h]

theorem touches_mark {a : Nat} (inside : a < bm.capacity) : Touches bm.Holds s (bm.mark s a) :=
  .put s _ (holds_of_lt inside)

/-- The store after bit `a` has been cleared. -/
def unmark (bm : Bitmap) (s : Disk) (a : Nat) : Disk :=
  s.put (bm.startBlockId + a / 32768)
    (clearWordBit (s.blocks (bm.startBlockId + a / 32768)) (a % 32768 / 64) (a % 64))

/-- `free` of an id of the segment clears its bit. -/
theorem run_free (fits : bm.Fits s.count) {a : Nat} (inside : a < bm.capacity)
    (small : bm.dataSegmentOffset + a < 4294967296) :
    (bm.free (bm.dataSegmentOffset + a)).run s = (.kSuccess, bm.unmark s a) := by
  obtain ⟨-, upper⟩ := holds_of_lt inside
  have onDevice := fits.onDevice
  have bound := fits.small
  have id : (bm.dataSegmentOffset + a + 4294967296 - bm.dataSegmentOffset) % 4294967296 = a := by
    omega
  have wrap : (bm.startBlockId + a / 32768) % 4294967296 = bm.startBlockId + a / 32768 :=
    Nat.mod_eq_of_lt (by omega)
  have target : bm.startBlockId + a / 32768 < s.count := by omega
  simp only [free, DevProg.run_bind, id, wrap, DevProg.run_readBlk_of_lt target,
    DevProg.run_writeBlk_of_lt _ target, if_true, DevProg.run_pure, unmark,
    show a % 32768 % 64 = a % 64 by omega]

theorem bit_unmark (fits : bm.Fits s.count) {a : Nat} (inside : a < bm.capacity) (i : Nat) :
    bm.bit (bm.unmark s a).blocks i = (!decide (i = a) && bm.bit s.blocks i) := by
  rw [unmark, bit_put fits inside (v := false)]
  · by_cases same : i = a <;> simp [same]
  · intro t
    rw [bit_clearWordBit _ (by omega) (by omega)]
    have same : 64 * (a % 32768 / 64) + a % 64 = a % 32768 := by omega
    rw [same]
    by_cases h : t = a % 32768 <;> simp [h]

theorem touches_unmark {a : Nat} (inside : a < bm.capacity) : Touches bm.Holds s (bm.unmark s a) :=
  .put s _ (holds_of_lt inside)

/-! ## The clear bits -/

/-- The clear bits in increasing order: what `alloc` has left to give. -/
def freeBits (bm : Bitmap) (blocks : Nat → Block) : List Nat :=
  (List.range bm.capacity).filter fun a => !bm.bit blocks a

theorem mem_freeBits {D : Nat → Block} {a : Nat} :
    a ∈ bm.freeBits D ↔ a < bm.capacity ∧ bm.bit D a = false := by
  simp [freeBits]

theorem freeBits_congr {D D' : Nat → Block} (same : ∀ b, bm.Holds b → D' b = D b) :
    bm.freeBits D' = bm.freeBits D := by
  apply List.filter_congr
  intro a member
  rw [bit_congr same (List.mem_range.mp member)]

/-- The first clear bit is the lowest one. -/
theorem head_freeBits {D : Nat → Block} {a : Nat} :
    (bm.freeBits D).head? = some a ↔
      a < bm.capacity ∧ bm.bit D a = false ∧ ∀ t, t < a → bm.bit D t = true := by
  rw [freeBits, List.head?_filter, List.find?_range_eq_some]
  simp only [Bool.not_eq_true', Bool.not_not, List.mem_range]
  constructor
  · rintro ⟨clear, inside, below⟩
    exact ⟨inside, clear, below⟩
  · rintro ⟨inside, clear, below⟩
    exact ⟨clear, inside, below⟩

theorem freeBits_mark (fits : bm.Fits s.count) {a : Nat} {rest : List Nat}
    (free : bm.freeBits s.blocks = a :: rest) : bm.freeBits (bm.mark s a).blocks = rest := by
  have inside : a < bm.capacity := (mem_freeBits.mp (free ▸ List.mem_cons_self)).1
  have nodup : (a :: rest).Nodup := free ▸ List.nodup_range.filter _
  have remove : bm.freeBits (bm.mark s a).blocks =
      (bm.freeBits s.blocks).filter fun i => !decide (i = a) := by
    rw [freeBits, freeBits, List.filter_filter]
    apply List.filter_congr
    intro i _
    rw [bit_mark fits inside, Bool.not_or]
  rw [remove, free, List.filter_cons_of_neg (by simp), List.filter_eq_self]
  intro i member
  have ne : i ≠ a := by
    rintro rfl
    exact (List.nodup_cons.mp nodup).1 member
  simp [ne]

/-- `alloc` hands out the first clear bit. -/
theorem run_alloc_cons (fits : bm.Fits s.count) {a : Nat} {rest : List Nat}
    (free : bm.freeBits s.blocks = a :: rest) :
    bm.alloc.run s = ((bm.dataSegmentOffset + a) % 4294967296, bm.mark s a) := by
  obtain ⟨inside, clear, below⟩ := head_freeBits.mp (by rw [free, List.head?_cons])
  exact run_alloc_some fits inside clear below

theorem run_alloc_nil (fits : bm.Fits s.count) (free : bm.freeBits s.blocks = []) :
    bm.alloc.run s = (kFailId, s) := by
  refine run_alloc_none fits fun t inside => ?_
  cases set : bm.bit s.blocks t with
  | true => rfl
  | false =>
    have member : t ∈ bm.freeBits s.blocks := mem_freeBits.mpr ⟨inside, set⟩
    rw [free] at member
    cases member

/-! ## Absolute ids

The rest of the code knows a bit only by the id that `alloc` returned for it. -/

/-- `id` is the id of some bit. -/
def InSegment (bm : Bitmap) (id : Nat) : Prop :=
  bm.dataSegmentOffset ≤ id ∧ id < bm.dataSegmentOffset + bm.capacity

/-- The ids of the set bits. -/
def Used (bm : Bitmap) (blocks : Nat → Block) (id : Nat) : Prop :=
  bm.InSegment id ∧ bm.bit blocks (id - bm.dataSegmentOffset) = true

/-- The ids of the clear bits in increasing order. -/
def freeIds (bm : Bitmap) (blocks : Nat → Block) : List Nat :=
  (bm.freeBits blocks).map (bm.dataSegmentOffset + ·)

variable {D D' : Nat → Block} {id : Nat} {ids : List Nat}

theorem mem_freeIds :
    id ∈ bm.freeIds D ↔ bm.InSegment id ∧ bm.bit D (id - bm.dataSegmentOffset) = false := by
  simp only [freeIds, List.mem_map, mem_freeBits, InSegment]
  constructor
  · rintro ⟨a, ⟨inside, clear⟩, rfl⟩
    rw [Nat.add_sub_cancel_left]
    exact ⟨⟨by omega, by omega⟩, clear⟩
  · rintro ⟨⟨lower, upper⟩, clear⟩
    exact ⟨_, ⟨by omega, clear⟩, by omega⟩

theorem used_iff : bm.Used D id ↔ bm.InSegment id ∧ id ∉ bm.freeIds D := by
  rw [Used, mem_freeIds]
  cases bm.bit D (id - bm.dataSegmentOffset) <;> simp

/-- The first free id is the lowest one. -/
theorem head_freeIds (inside : bm.InSegment id) (free : ¬ bm.Used D id)
    (below : ∀ j, bm.InSegment j → j < id → bm.Used D j) : (bm.freeIds D).head? = some id := by
  have first : (bm.freeBits D).head? = some (id - bm.dataSegmentOffset) := by
    refine head_freeBits.mpr ⟨?_, ?_, fun t low => ?_⟩
    · rw [InSegment] at inside
      omega
    · exact Bool.eq_false_iff.mpr fun set => free ⟨inside, set⟩
    · have used := below (bm.dataSegmentOffset + t) ⟨by omega, by have := inside.2; omega⟩ (by omega)
      rw [Used, Nat.add_sub_cancel_left] at used
      exact used.2
  rw [freeIds, List.head?_map, first, Option.map_some, Nat.add_sub_cancel' inside.1]

theorem nodup_freeIds : (bm.freeIds D).Nodup := by
  have bits : (bm.freeBits D).Nodup := List.nodup_range.filter _
  exact List.Nodup.map (fun _ _ same => Nat.add_left_cancel same) bits

theorem freeIds_congr (same : ∀ b, bm.Holds b → D' b = D b) : bm.freeIds D' = bm.freeIds D := by
  rw [freeIds, freeIds, freeBits_congr same]

theorem used_congr (same : ∀ b, bm.Holds b → D' b = D b) : bm.Used D' id ↔ bm.Used D id := by
  rw [used_iff, used_iff, freeIds_congr same]

theorem run_alloc_id (fits : bm.Fits s.count) (free : bm.freeIds s.blocks = id :: ids)
    (id32 : id < 4294967296) :
    ∃ s', bm.alloc.run s = (id, s') ∧ bm.freeIds s'.blocks = ids ∧ Touches bm.Holds s s' := by
  obtain ⟨a, rest, bits, rfl, rfl⟩ := List.map_eq_cons_iff.mp free
  have inside : a < bm.capacity := (mem_freeBits.mp (bits ▸ List.mem_cons_self)).1
  refine ⟨bm.mark s a, ?_, ?_, touches_mark inside⟩
  · rw [run_alloc_cons fits bits, Nat.mod_eq_of_lt id32]
  · rw [freeIds, freeBits_mark fits bits]

theorem run_alloc_full (fits : bm.Fits s.count) (free : bm.freeIds s.blocks = []) :
    bm.alloc.run s = (kFailId, s) :=
  run_alloc_nil fits (List.map_eq_nil_iff.mp free)

theorem run_free_id (fits : bm.Fits s.count) (inside : bm.InSegment id)
    (id32 : id < 4294967296) :
    ∃ s', (bm.free id).run s = (.kSuccess, s') ∧ Touches bm.Holds s s' ∧
      ∀ x, bm.Used s'.blocks x ↔ bm.Used s.blocks x ∧ x ≠ id := by
  obtain ⟨lower, upper⟩ := inside
  obtain ⟨a, rfl⟩ := Nat.exists_eq_add_of_le lower
  have bound : a < bm.capacity := by omega
  refine ⟨bm.unmark s a, run_free fits bound id32, touches_unmark bound, fun x => ?_⟩
  rw [Used, Used, bit_unmark fits bound]
  simp only [Bool.and_eq_true, Bool.not_eq_true', decide_eq_false_iff_not, InSegment]
  constructor
  · rintro ⟨segment, ne, set⟩
    exact ⟨⟨segment, set⟩, by omega⟩
  · rintro ⟨⟨segment, set⟩, ne⟩
    exact ⟨segment, by omega, set⟩

end Bitmap

/-- Where `initBitmapAndBlock` puts the data bitmap and the area behind it: the
bitmap lies above block 1023, the area after the bitmap, and no id is `kFail`. -/
structure Bitmap.Segment (bm : Bitmap) (count : Nat) : Prop extends bm.Fits count where
  high : 1024 ≤ bm.startBlockId
  after : bm.startBlockId + bm.numBlocks ≤ bm.dataSegmentOffset
  area : bm.dataSegmentOffset + bm.capacity ≤ count
  ids32 : bm.dataSegmentOffset + bm.capacity < 4294967296

namespace Bitmap.Segment

variable {bm : Bitmap} {count id : Nat}

theorem not_holds (segment : bm.Segment count) (inside : bm.InSegment id) : ¬ bm.Holds id := by
  have := segment.after
  have := inside.1
  rintro ⟨-, upper⟩
  omega

theorem bound (segment : bm.Segment count) (inside : bm.InSegment id) :
    1024 < id ∧ id < count ∧ id < 4294967295 := by
  have high := segment.high
  have after := segment.after
  have area := segment.area
  have ids32 := segment.ids32
  obtain ⟨lower, upper⟩ := inside
  rw [capacity] at *
  omega

end Bitmap.Segment

end Sbfs
