import Sbfs.Resize

/-! # What `resize` compares

`resize` compares totals of blocks, index blocks included, while `increase` and `decrease` loop
over data blocks.  Both orders agree, so each call does what its name says, the assertions of
`increase` and `decrease` hold, and step three of `decrease` always finds one of its two cases. -/

namespace Sbfs

open Slot

/-! ## The machine arithmetic -/

/-- `MAX_BLOCK_SIZE`. -/
def maxBlockSize : Nat := 23 + 1024 + 1024 * 1024

/-- `MAX_FILE_SIZE`. -/
def maxFileSize : Nat := min 4294967295 (maxBlockSize * 4096)

theorem maxFileSize_eq : maxFileSize = 4294967295 := rfl

/-- `data_blocks`: `kBlockSize` is a `uint64_t`. -/
def dataBlocks32 (size : UInt32) : UInt32 := ((size.toUInt64 + 4096 - 1) / 4096).toUInt32

/-- `total_blocks` as the machine computes it. -/
def totalBlocks32 (size : UInt32) : UInt32 :=
  let data := dataBlocks32 size
  if data < 23 then data
  else if data - 23 < 1024 then data + 1
  else
    let rest := data - 23 - 1024
    data + 2 + (rest + 1024 - 1) / 1024

/-- A result that is a `uint32_t`. -/
def fits32 (z : Int) : Option Nat := if 0 ≤ z ∧ z < 4294967296 then some z.toNat else none

/-- `total_blocks` with each sum and difference checked. -/
def totalBlocksChecked (size : Nat) : Option Nat := do
  let data := dataBlocks size
  if data < 23 then return data
  else
    let past ← fits32 ((data : Int) - 23)
    if past < 1024 then fits32 ((data : Int) + 1)
    else
      let rest ← fits32 ((past : Int) - 1024)
      let sum ← fits32 ((rest : Int) + 1024)
      let round ← fits32 ((sum : Int) - 1)
      let base ← fits32 ((data : Int) + 2)
      fits32 ((base : Int) + (round / 1024 : Nat))

theorem fits32_of_lt {z : Int} (lower : 0 ≤ z) (upper : z < 4294967296) : fits32 z = some z.toNat :=
  if_pos ⟨lower, upper⟩

theorem dataBlocks32_toNat (size : UInt32) : (dataBlocks32 size).toNat = dataBlocks size.toNat := by
  have small := size.toNat_lt
  simp only [dataBlocks32, dataBlocks, UInt64.toNat_toUInt32, UInt64.toNat_div, UInt64.toNat_sub,
    UInt64.toNat_add, UInt32.toNat_toUInt64, UInt64.reduceToNat]
  omega

theorem totalBlocks32_toNat (size : UInt32) : (totalBlocks32 size).toNat = DiskInode.totalBlocks size.toNat := by
  have data := dataBlocks32_toNat size
  have bound := dataBlocks_le size.toNat_lt
  simp only [totalBlocks32, DiskInode.totalBlocks, UInt32.lt_iff_toNat_lt, ← data, UInt32.toNat_sub,
    UInt32.reduceToNat] at bound ⊢
  generalize (dataBlocks32 size) = n at bound ⊢
  split
  · rfl
  · split
    · rw [if_pos (by omega), UInt32.toNat_add]
      simp only [UInt32.reduceToNat]
      omega
    · rw [if_neg (by omega)]
      simp only [UInt32.toNat_add, UInt32.toNat_div, UInt32.toNat_sub, UInt32.reduceToNat]
      omega

/-- No sum or difference of `total_blocks` wraps. -/
theorem totalBlocksChecked_eq {size : Nat} (small : size ≤ maxFileSize) :
    totalBlocksChecked size = some (DiskInode.totalBlocks size) := by
  rw [maxFileSize_eq] at small
  have bound := dataBlocks_le (show size < 4294967296 by omega)
  simp only [totalBlocksChecked, DiskInode.totalBlocks]
  generalize dataBlocks size = n at bound ⊢
  by_cases direct : n < 23
  · simp only [direct, if_true]
    rfl
  · rw [if_neg direct, if_neg direct, fits32_of_lt (by omega) (by omega)]
    simp only [Option.bind_eq_bind, Option.bind_some]
    by_cases one : n - 23 < 1024
    · rw [if_pos (by omega), if_pos one, fits32_of_lt (by omega) (by omega)]
      exact congrArg some (by omega)
    · rw [if_neg (by omega), if_neg one, fits32_of_lt (by omega) (by omega), Option.bind_some,
        fits32_of_lt (by omega) (by omega), Option.bind_some, fits32_of_lt (by omega) (by omega), Option.bind_some,
        fits32_of_lt (by omega) (by omega), Option.bind_some, fits32_of_lt (by omega) (by omega)]
      exact congrArg some (by omega)

/-! ## The three branches -/

inductive Dispatch where
  | same
  | decrease
  | increase
deriving Repr, DecidableEq

/-- The comparisons of `resize`. -/
def dispatch (oldSize newSize : Nat) : Dispatch :=
  if DiskInode.totalBlocks oldSize = DiskInode.totalBlocks newSize then .same
  else if DiskInode.totalBlocks newSize < DiskInode.totalBlocks oldSize then .decrease
  else .increase

/-- `new_direct_blocks`, which `increase` and `decrease` compute from their arguments. -/
def newDirectBlocks (oldBlocks oldDataBlocks newBlocks newDataBlocks : Int) : Int :=
  newBlocks - oldBlocks - (newDataBlocks - oldDataBlocks)

/-- What the assertion at the top of the branch says. -/
def Asserted (oldSize newSize : Nat) : Prop :=
  let blocks := newDirectBlocks (int32 (DiskInode.totalBlocks oldSize)) (int32 (dataBlocks oldSize))
    (int32 (DiskInode.totalBlocks newSize)) (int32 (dataBlocks newSize))
  match dispatch oldSize newSize with
  | .same => True
  | .decrease => blocks ≤ 0
  | .increase => 0 ≤ blocks

/-- The condition of the branch of `decrease` that should not be reached. -/
def ShouldNotBeHere (oldData newData : Nat) : Prop :=
  let ri : Int := (newData : Int) - 23 - 1024 - 1
  let rj : Int := (oldData : Int) - 23 - 1024 - 1
  ¬ (ri < 0 ∧ 0 ≤ rj) ∧ ¬ (0 ≤ ri ∧ 0 ≤ rj)

section

variable {bm : Bitmap} {d d₁ d₂ : DiskInode} {D : Nat → Block} {oldSize newSize : Nat}

/-- `resize` does what its comparisons say. -/
theorem resize_eq (d : DiskInode) (newSize : Nat) (bm : Bitmap) (inode : Option Position) :
    d.resize newSize bm inode = (do
      let d ← d.updateMeta 7
      let sized := { d with size := UInt32.ofNat newSize }
      match dispatch d.size.toNat newSize with
      | .same =>
        match inode with
        | none => return (.kSuccess, sized)
        | some pos =>
          let _ ← writeInode pos sized
          return (.kSuccess, sized)
      | .decrease => sized.decrease (dataBlocks d.size.toNat) (dataBlocks newSize) bm inode
      | .increase => sized.increase (dataBlocks d.size.toNat) (dataBlocks newSize) bm) := by
  rw [DiskInode.resize]
  apply bind_congr
  intro d
  simp only [dispatch]
  split
  · rfl
  · split
    · rfl
    · rfl

theorem dispatch_same : dispatch oldSize newSize = .same ↔ dataBlocks oldSize = dataBlocks newSize := by
  rw [← totalBlocks_eq, dispatch]
  split
  · simp [*]
  · split <;> simp [*]

theorem dispatch_decrease : dispatch oldSize newSize = .decrease ↔ dataBlocks newSize < dataBlocks oldSize := by
  rw [← totalBlocks_lt, dispatch]
  split
  · simp [*]
  · split <;> simp [*]

theorem dispatch_increase : dispatch oldSize newSize = .increase ↔ dataBlocks oldSize < dataBlocks newSize := by
  have same : dispatch oldSize newSize = .same ↔ dataBlocks oldSize = dataBlocks newSize := dispatch_same
  have less : dispatch oldSize newSize = .decrease ↔ dataBlocks newSize < dataBlocks oldSize := dispatch_decrease
  cases is : dispatch oldSize newSize with
  | same =>
    have := same.mp is
    simp only [reduceCtorEq, false_iff]
    omega
  | decrease =>
    have := less.mp is
    simp only [reduceCtorEq, false_iff]
    omega
  | increase =>
    rw [is] at same less
    simp only [reduceCtorEq, false_iff] at same less
    simp only [true_iff]
    omega

/-- The larger file has at least as many index blocks. -/
theorem indexBlocks_le (less : dataBlocks oldSize ≤ dataBlocks newSize) :
    DiskInode.totalBlocks oldSize + dataBlocks newSize ≤ DiskInode.totalBlocks newSize + dataBlocks oldSize := by
  simp only [DiskInode.totalBlocks]
  generalize dataBlocks oldSize = m at less ⊢
  generalize dataBlocks newSize = n at less ⊢
  split <;> split <;> (try split) <;> (try split) <;> omega

theorem totalBlocks_le (small : oldSize ≤ maxFileSize) : DiskInode.totalBlocks oldSize ≤ 1049602 := by
  rw [maxFileSize_eq] at small
  have bound := dataBlocks_le (show oldSize < 4294967296 by omega)
  simp only [DiskInode.totalBlocks]
  generalize dataBlocks oldSize = n at bound ⊢
  split
  · omega
  · split <;> omega

theorem asserted (small : oldSize ≤ maxFileSize) (small' : newSize ≤ maxFileSize) : Asserted oldSize newSize := by
  have total := totalBlocks_le small
  have total' := totalBlocks_le small'
  rw [maxFileSize_eq] at small small'
  have data := dataBlocks_le (show oldSize < 4294967296 by omega)
  have data' := dataBlocks_le (show newSize < 4294967296 by omega)
  rw [Asserted, int32_of_lt (by omega), int32_of_lt (by omega), int32_of_lt (by omega), int32_of_lt (by omega),
    newDirectBlocks]
  split
  · trivial
  · have less := dispatch_decrease.mp ‹_›
    have index := indexBlocks_le (Nat.le_of_lt less)
    omega
  · have less := dispatch_increase.mp ‹_›
    have index := indexBlocks_le (Nat.le_of_lt less)
    omega

/-- An inode with a pointer to a second index block has more than 1047 data blocks. -/
theorem WellMapped.two_level (map : WellMapped bm d D) (some : d.indirect2 ≠ 0) : 1047 < dataBlocks d.size.toNat := by
  by_contra few
  exact some (map.no2 fun valid => few valid)

/-- Steps one and two of `decrease` do not touch `indirect2`. -/
theorem indirect2_kept {m n : Nat} {ids₀ ids₁ : List Int} {ret : Ret} {s s' : Disk}
    (one : DiskInode.dropEach DiskInode.directAt DiskInode.setDirect (min m 23 - n) n d = (ids₀, d₁))
    (two : (d₁.decreaseIndirect1 m n).run s = ((ret, d₂, ids₁), s')) : d₂.indirect2 = d.indirect2 := by
  have first : d₁.indirect2 = d.indirect2 := by
    have fields := DiskInode.dropEach_direct d (min m 23 - n) n
    rw [one] at fields
    have same := congrArg DiskInode.indirect2 fields
    exact same
  rw [← first]
  rw [DiskInode.decreaseIndirect1] at two
  split at two
  · cases two
    rfl
  · rw [DevProg.run_bind] at two
    split at two
    · cases two
      rfl
    · simp only at two
      split at two
      · cases two
        rfl
      · rw [DevProg.run_bind] at two
        split at two
        · cases two
          rfl
        · cases two
          rfl

end

/-- `resize` dispatches on the data block counts. -/
theorem resize_dispatches :
    (∀ size : UInt32, (totalBlocks32 size).toNat = DiskInode.totalBlocks size.toNat) ∧
    (∀ size, size ≤ maxFileSize → totalBlocksChecked size = some (DiskInode.totalBlocks size)) ∧
    (∀ a b, a ≤ maxFileSize → b ≤ maxFileSize →
      (dataBlocks a = dataBlocks b → DiskInode.totalBlocks a = DiskInode.totalBlocks b) ∧
      (dataBlocks a < dataBlocks b → DiskInode.totalBlocks a < DiskInode.totalBlocks b)) ∧
    (∀ (d : DiskInode) (newSize : Nat) (bm : Bitmap) (inode : Option Position),
      d.resize newSize bm inode = do
        let d ← d.updateMeta 7
        let sized := { d with size := UInt32.ofNat newSize }
        match dispatch d.size.toNat newSize with
        | .same =>
          match inode with
          | none => return (.kSuccess, sized)
          | some pos =>
            let _ ← writeInode pos sized
            return (.kSuccess, sized)
        | .decrease => sized.decrease (dataBlocks d.size.toNat) (dataBlocks newSize) bm inode
        | .increase => sized.increase (dataBlocks d.size.toNat) (dataBlocks newSize) bm) ∧
    (∀ oldSize newSize, oldSize ≤ maxFileSize → newSize ≤ maxFileSize →
      (dispatch oldSize newSize = .same ↔ dataBlocks oldSize = dataBlocks newSize) ∧
      (dispatch oldSize newSize = .decrease ↔ dataBlocks newSize < dataBlocks oldSize) ∧
      (dispatch oldSize newSize = .increase ↔ dataBlocks oldSize < dataBlocks newSize) ∧
      Asserted oldSize newSize) ∧
    -- with the inode as it is when `decrease` comes to step three
    (∀ (bm : Bitmap) (d : DiskInode) (D : Nat → Block), WellMapped bm d D →
      ∀ newSize, newSize ≤ maxFileSize → dispatch d.size.toNat newSize = .decrease →
      ∀ (sized d₁ d₂ : DiskInode) (ids₀ ids₁ : List Int) (ret : Ret) (s s' : Disk), sized.indirect2 = d.indirect2 →
        DiskInode.dropEach DiskInode.directAt DiskInode.setDirect
          (min (dataBlocks d.size.toNat) 23 - dataBlocks newSize) (dataBlocks newSize) sized = (ids₀, d₁) →
        (d₁.decreaseIndirect1 (dataBlocks d.size.toNat) (dataBlocks newSize)).run s = ((ret, d₂, ids₁), s') →
        d₂.indirect2 ≠ 0 → ¬ ShouldNotBeHere (dataBlocks d.size.toNat) (dataBlocks newSize)) := by
  refine ⟨totalBlocks32_toNat, fun size => totalBlocksChecked_eq, fun a b _ _ => ⟨totalBlocks_eq.mpr, totalBlocks_lt.mpr⟩,
    resize_eq, fun oldSize newSize small small' => ⟨dispatch_same, dispatch_decrease, dispatch_increase,
      asserted small small'⟩, ?_⟩
  intro bm d D map newSize _ _ sized d₁ d₂ ids₀ ids₁ ret s s' pointer one two some here
  rw [indirect2_kept one two, pointer] at some
  have big := map.two_level some
  simp only [ShouldNotBeHere] at here
  omega

end Sbfs
