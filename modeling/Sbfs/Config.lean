import Sbfs.Lib.Bytes
import Sbfs.Lib.DevProg

/-! # Constants and machine integers

The constants of `config.h`, the 32-bit conversions that the code performs between
`uint32_t` and `int`, and the block type of `blk.h`.  Block ids (`blk_id_t`) are
naturals: every place where the code wraps modulo `2 ^ 32` says so. -/

namespace Sbfs

@[simp] def kBlockSize : Nat := 4096
@[simp] def kMaxDirNameLength : Nat := 251

def MB (x : Nat) : Nat := x * 1024 * 1024

def kPathCacheSize : Nat := MB 32
def kInodeBitmapBlocks : Nat := 1
def kFSMagic : Nat := 0x53425355

/-- The two status values of the code; the calls that return a length or a block
id have their own types. -/
inductive Ret where
  | kSuccess
  | kFail
deriving Repr, DecidableEq

/-- `kFail` read as a block id or an inode id. -/
@[simp] def kFailId : Nat := 4294967295

/-- Conversion to `uint32_t`. -/
def uint32 (z : Int) : Nat := (z % 4294967296).toNat

/-- Conversion to `uint64_t`. -/
def uint64 (z : Int) : Nat := (z % 18446744073709551616).toNat

/-- Conversion of a `uint32_t` to `int`. -/
def int32 (n : Nat) : Int := if n % 4294967296 < 2147483648 then (n % 4294967296 : Nat)
  else ((n % 4294967296 : Nat) : Int) - 4294967296

theorem int32_of_lt {n : Nat} (small : n < 2147483648) : int32 n = n := by
  rw [int32, Nat.mod_eq_of_lt (by omega), if_pos small]

theorem uint32_int32 {n : Nat} (h : n < 4294967296) : uint32 (int32 n) = n := by
  unfold int32 uint32
  split <;> omega

/-- A disk block: `kBlockSize` bytes. -/
abbrev Block := Bytes 4096

/-- A program over the block device. -/
abbrev Prog := DevProg Block

/-- The flat view of the block device: an array of blocks. -/
abbrev Disk := Store Block

end Sbfs
