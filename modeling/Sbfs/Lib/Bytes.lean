import Mathlib.Data.Nat.Bitwise
import Mathlib.Logic.Function.Basic

/-! # Fixed-size byte buffers

`Bytes n` is a buffer of exactly `n` bytes.  A caller's memory, whose size the
callee does not know, is a `Mem`.  The library gives the three ways in which
systems code looks at such memory:

* `le` / `putLE` — little-endian integers of any width at any offset;
* `Bytes.bit` — single bits, and their relation to the little-endian words
  (`testBit_le`), so that a bitmap kept in 64-bit words can be read bit by bit;
* `splice` — `memcpy`.
-/

/-- Memory reached through a pointer: byte `i` after the pointer. -/
abbrev Mem := Nat → UInt8

/-- A buffer of `n` bytes. -/
abbrev Bytes (n : Nat) := Fin n → UInt8

/-! ## Little-endian integers -/

/-- The integer in the `w` bytes at `f`, least significant byte first. -/
def le (f : Mem) : Nat → Nat
  | 0 => 0
  | w + 1 => (f 0).toNat + 256 * le (fun i => f (i + 1)) w

/-- Byte `i` of the little-endian form of `v`. -/
def leByte (v i : Nat) : UInt8 := UInt8.ofNat (v / 256 ^ i)

theorem le_congr {f g : Mem} {w : Nat} (same : ∀ i, i < w → f i = g i) : le f w = le g w := by
  induction w generalizing f g with
  | zero => rfl
  | succ w ih =>
    simp only [le]
    rw [same 0 (by omega), ih (fun i bound => same (i + 1) (by omega))]

theorem le_lt (f : Mem) (w : Nat) : le f w < 256 ^ w := by
  induction w generalizing f with
  | zero => simp [le]
  | succ w ih =>
    have head := (f 0).toNat_lt
    have tail := ih (fun i => f (i + 1))
    simp only [le, Nat.pow_succ]
    omega

/-- Reading back what `leByte` lays out gives the value modulo the width. -/
theorem le_leByte (v w : Nat) : le (leByte v) w = v % 256 ^ w := by
  induction w generalizing v with
  | zero => simp [le, Nat.mod_one]
  | succ w ih =>
    have shift : (fun i => leByte v (i + 1)) = leByte (v / 256) := by
      funext i
      simp only [leByte]
      rw [Nat.pow_succ, Nat.mul_comm, Nat.div_div_eq_div_mul]
    have low : (leByte v 0).toNat = v % 256 := by simp [leByte]
    simp only [le]
    rw [shift, ih, low, Nat.pow_succ, Nat.mul_comm (256 ^ w) 256, Nat.mod_mul]

theorem testBit_le (f : Mem) (w k : Nat) :
    (le f w).testBit k = (decide (k < 8 * w) && (f (k / 8)).toNat.testBit (k % 8)) := by
  induction w generalizing f k with
  | zero => simp [le]
  | succ w ih =>
    have split : le f (w + 1) = 2 ^ 8 * le (fun i => f (i + 1)) w + (f 0).toNat := by
      simp only [le]; omega
    rw [split, Nat.testBit_two_pow_mul_add _ (f 0).toNat_lt]
    by_cases low : k < 8
    · have quot : k / 8 = 0 := by omega
      have rem : k % 8 = k := by omega
      simp [low, quot, rem, show k < 8 * (w + 1) by omega]
    · have quot : k / 8 = (k - 8) / 8 + 1 := by omega
      have rem : k % 8 = (k - 8) % 8 := by omega
      rw [if_neg low, ih, quot, rem]
      congr 1
      simp only [decide_eq_decide]
      omega

/-! ## Buffers -/

namespace Bytes

variable {n : Nat}

/-- Byte `i`; a position past the end reads as `0`. -/
def get (b : Bytes n) (i : Nat) : UInt8 := if h : i < n then b ⟨i, h⟩ else 0

/-- The buffer whose byte `i` is `f i`. -/
def ofMem (f : Mem) : Bytes n := fun i => f i

/-- The all-zero buffer. -/
def zero : Bytes n := fun _ => 0

theorem get_ofMem_of_lt (f : Mem) {i : Nat} (h : i < n) : (ofMem f : Bytes n).get i = f i := by
  simp [get, ofMem, h]

theorem get_of_ge (b : Bytes n) {i : Nat} (h : n ≤ i) : b.get i = 0 := by
  simp [get, Nat.not_lt.mpr h]

@[simp] theorem get_zero (i : Nat) : (zero : Bytes n).get i = 0 := by
  simp [get, zero]

theorem ext_get {a b : Bytes n} (same : ∀ i, i < n → a.get i = b.get i) : a = b := by
  funext i
  have h := same i i.isLt
  simpa [get, i.isLt] using h

@[simp] theorem ofMem_get (b : Bytes n) : ofMem b.get = b :=
  ext_get fun _ h => get_ofMem_of_lt _ h

end Bytes

/-! ## `memcpy` -/

/-- `memcpy(dst + at, src, len)`: memory `dst` after the copy. -/
def splice (dst : Mem) (start len : Nat) (src : Mem) : Mem := fun i =>
  if start ≤ i ∧ i < start + len then src (i - start) else dst i

theorem splice_inside {dst src : Mem} {start len i : Nat} (lower : start ≤ i)
    (upper : i < start + len) : splice dst start len src i = src (i - start) := by
  simp [splice, lower, upper]

theorem splice_outside {dst src : Mem} {start len i : Nat} (out : i < start ∨ start + len ≤ i) :
    splice dst start len src i = dst i := by
  rw [splice, if_neg (by omega)]

@[simp] theorem splice_zero (dst src : Mem) (start : Nat) : splice dst start 0 src = dst := by
  funext i
  exact splice_outside (by omega)

/-- Two copies that continue one another are one copy. -/
theorem splice_splice {dst src : Mem} {start len more : Nat} :
    splice (splice dst start len src) (start + len) more (fun i => src (len + i)) =
      splice dst start (len + more) src := by
  funext i
  by_cases first : start ≤ i ∧ i < start + len
  · rw [splice_outside (by omega), splice_inside first.1 first.2, splice_inside first.1 (by omega)]
  · by_cases second : start + len ≤ i ∧ i < start + len + more
    · rw [splice_inside second.1 second.2, splice_inside (by omega) (by omega)]
      congr 1
      omega
    · rw [splice_outside (by omega), splice_outside (by omega), splice_outside (by omega)]

namespace Bytes

variable {n : Nat}

/-- The buffer after `memcpy(b + start, src, len)`. -/
def blit (b : Bytes n) (start len : Nat) (src : Mem) : Bytes n := ofMem (splice b.get start len src)

theorem get_blit (b : Bytes n) {start len : Nat} (src : Mem) {i : Nat} (h : i < n) :
    (b.blit start len src).get i = splice b.get start len src i :=
  get_ofMem_of_lt _ h

/-! ### Integers inside a buffer -/

/-- The `w`-byte little-endian integer at offset `at`. -/
def getLE (b : Bytes n) (w start : Nat) : Nat := le (fun i => b.get (start + i)) w

/-- Stores a `w`-byte little-endian integer at offset `at`. -/
def setLE (b : Bytes n) (w start v : Nat) : Bytes n := b.blit start w (leByte v)

theorem getLE_lt (b : Bytes n) (w start : Nat) : b.getLE w start < 256 ^ w := le_lt _ _

theorem getLE_setLE_same (b : Bytes n) {w start : Nat} (v : Nat) (fits : start + w ≤ n) :
    (b.setLE w start v).getLE w start = v % 256 ^ w := by
  rw [← le_leByte]
  apply le_congr
  intro i bound
  rw [setLE, get_blit b _ (by omega), splice_inside (by omega) (by omega)]
  congr 1
  omega

theorem getLE_setLE_disjoint (b : Bytes n) {w start w' start' : Nat} (v : Nat)
    (apart : start' + w' ≤ start ∨ start + w ≤ start') :
    (b.setLE w start v).getLE w' start' = b.getLE w' start' := by
  apply le_congr
  intro i bound
  by_cases h : start' + i < n
  · rw [setLE, get_blit b _ h, splice_outside (by omega)]
  · rw [get_of_ge _ (by omega), get_of_ge _ (by omega)]

/-! ### Bits of a buffer -/

/-- Bit `k` of the buffer, least significant bit of each byte first. -/
def bit (b : Bytes n) (k : Nat) : Bool := (b.get (k / 8)).toNat.testBit (k % 8)

/-- The bits of a little-endian word are the bits of the buffer it lies in. -/
theorem testBit_getLE (b : Bytes n) {w start k : Nat} (h : k < 8 * w) :
    (b.getLE w start).testBit k = b.bit (8 * start + k) := by
  rw [getLE, testBit_le]
  have quot : (8 * start + k) / 8 = start + k / 8 := by omega
  have rem : (8 * start + k) % 8 = k % 8 := by omega
  simp [bit, h, quot, rem]

/-- The bits of a buffer after one of its words is replaced. -/
theorem bit_setLE (b : Bytes n) {w start v k : Nat} (fits : start + w ≤ n)
    (small : v < 256 ^ w) :
    (b.setLE w start v).bit k =
      if 8 * start ≤ k ∧ k < 8 * (start + w) then v.testBit (k - 8 * start) else b.bit k := by
  split
  next inside =>
    have word : ((b.setLE w start v).getLE w start).testBit (k - 8 * start) = _ :=
      testBit_getLE _ (by omega)
    rw [getLE_setLE_same b v fits, Nat.mod_eq_of_lt small] at word
    rw [word]
    congr 1
    omega
  next outside =>
    have same : (b.setLE w start v).get (k / 8) = b.get (k / 8) := by
      by_cases h : k / 8 < n
      · rw [setLE, get_blit b _ h, splice_outside (by omega)]
      · rw [get_of_ge _ (by omega), get_of_ge _ (by omega)]
    rw [bit, bit, same]

end Bytes
