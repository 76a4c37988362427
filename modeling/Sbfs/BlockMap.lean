import Sbfs.DiskInode

/-! # The blocks of an inode

An inode owns data blocks and three kinds of index blocks.  A `Slot` names one of
them, `slotId` looks its block id up (in the inode, or in the index block that is the
slot's parent), and `BlockMap` says that a set of slots has distinct blocks, all taken
in the data bitmap.

`Grown` describes what allocating a list of slots does; it composes (`Grown.trans`)
and preserves block maps (`Grown.map`).  The steps of `increase` are built from
`grown_root` and `grown_entry`. -/

namespace Sbfs

inductive Slot where
  | data (k : Nat)
  | ind1
  | ind2
  | second (q : Nat)
deriving Repr, DecidableEq

namespace Slot

/-- The slots of an inode with `n` data blocks. -/
def Valid (n : Nat) : Slot → Prop
  | data k => k < n
  | ind1 => 23 < n
  | ind2 => 1047 < n
  | second q => 1047 + 1024 * q < n

instance (n : Nat) : DecidablePred (Valid n)
  | data _ => Nat.decLt _ _
  | ind1 => Nat.decLt _ _
  | ind2 => Nat.decLt _ _
  | second _ => Nat.decLt _ _

theorem Valid.mono {m n : Nat} (le : m ≤ n) {x : Slot} (valid : x.Valid m) : x.Valid n := by
  cases x <;> simp only [Valid] at * <;> omega

/-- The index block that holds the id; `none` stands for the inode itself. -/
def parent : Slot → Option Slot
  | data k => if k < 23 then none else if k < 1047 then some ind1 else some (second ((k - 1047) / 1024))
  | ind1 => none
  | ind2 => none
  | second _ => some ind2

/-- The entry of the parent that holds the id. -/
def index : Slot → Nat
  | data k => if k < 1047 then k - 23 else (k - 1047) % 1024
  | ind1 => 0
  | ind2 => 0
  | second q => q

def isIndex : Slot → Bool
  | data _ => false
  | _ => true

theorem parent_isIndex {x y : Slot} (h : x.parent = some y) : y.isIndex = true := by
  cases x with
  | data k =>
    simp only [parent] at h
    split at h
    · cases h
    · split at h <;> cases h <;> rfl
  | ind1 => cases h
  | ind2 => cases h
  | second q => cases h; rfl

theorem data_root {k : Nat} (h : (data k).parent = none) : k < 23 := by
  simp only [parent] at h
  split at h
  · assumption
  · split at h <;> cases h

/-- Parent and entry determine a slot that has a parent. -/
theorem eq_of_parent {x y z : Slot} (hx : x.parent = some z) (hy : y.parent = some z)
    (same : x.index = y.index) : x = y := by
  cases x <;> cases y <;> simp only [parent, index] at hx hy same <;> grind

/-- Induction from the inode down. -/
theorem parent_induction {P : Slot → Prop} (step : ∀ x, (∀ p, x.parent = some p → P p) → P x)
    (x : Slot) : P x := by
  have root : ∀ x : Slot, x.parent = none → P x := by
    intro x none
    refine step x fun p some => ?_
    rw [none] at some
    cases some
  have second : ∀ q, P (second q) := fun q => step _ fun p h => by
    cases h
    exact root _ rfl
  cases x with
  | data k =>
    refine step _ fun p h => ?_
    simp only [parent] at h
    split at h
    · cases h
    · split at h <;> cases h
      · exact root _ rfl
      · exact second _
  | ind1 => exact root _ rfl
  | ind2 => exact root _ rfl
  | second q => exact second q

end Slot

open Slot

/-- The block id of a slot. -/
def DiskInode.slotId (d : DiskInode) (D : Nat → Block) : Slot → Nat
  | data k =>
    if k < 23 then d.directAt k
    else if k < 1047 then entry (D d.indirect1.toNat) (k - 23)
    else entry (D (entry (D d.indirect2.toNat) ((k - 1047) / 1024))) ((k - 1047) % 1024)
  | ind1 => d.indirect1.toNat
  | ind2 => d.indirect2.toNat
  | second q => entry (D d.indirect2.toNat) q

namespace DiskInode

variable {d d' : DiskInode} {D D' : Nat → Block}

theorem slotId_child {x p : Slot} (h : x.parent = some p) :
    d.slotId D x = entry (D (d.slotId D p)) x.index := by
  cases x with
  | data k =>
    simp only [parent] at h
    split at h
    · cases h
    · rename_i high
      split at h <;> rename_i level <;> cases h <;> simp only [slotId, index, high, level, if_false,
        if_true]
  | ind1 => cases h
  | ind2 => cases h
  | second q => cases h; rfl

theorem slotId_direct {k : Nat} (low : k < 23) : d.slotId D (data k) = d.directAt k := by
  simp only [slotId, low, if_true]

/-- Ids kept in the inode do not depend on the device. -/
theorem slotId_root {x : Slot} (h : x.parent = none) : d.slotId D x = d.slotId D' x := by
  cases x with
  | data k =>
    simp only [parent] at h
    split at h
    · rename_i low
      simp only [slotId, low, if_true]
    · split at h <;> cases h
  | ind1 => rfl
  | ind2 => rfl
  | second q => cases h

end DiskInode

/-- A set of slots that, with a slot, has the index block holding its id. -/
def Closed (V : Slot → Prop) : Prop := ∀ x p, x.parent = some p → V x → V p

theorem closed_valid (n : Nat) : Closed (Valid n) := by
  intro x p h valid
  cases x with
  | data k =>
    simp only [Valid] at valid
    simp only [parent] at h
    split at h
    · cases h
    · split at h <;> cases h <;> simp only [Valid] <;> omega
  | ind1 => cases h
  | ind2 => cases h
  | second q =>
    cases h
    simp only [Valid] at *
    omega

/-- The slots in `V` have distinct blocks, all of them taken in the bitmap, and an index
pointer without a slot in `V` is zero. -/
structure BlockMap (bm : Bitmap) (d : DiskInode) (D : Nat → Block) (V : Slot → Prop) : Prop where
  closed : Closed V
  used : ∀ x, V x → bm.Used D (d.slotId D x)
  inj : ∀ x y, V x → V y → d.slotId D x = d.slotId D y → x = y
  no1 : ¬ V ind1 → d.indirect1 = 0
  no2 : ¬ V ind2 → d.indirect2 = 0

section

variable {bm : Bitmap} {d d' : DiskInode} {D D' : Nat → Block} {V W : Slot → Prop}

/-- The ids depend on the ids kept in the inode and on the index blocks in use only. -/
theorem slotId_congr_root (closed : Closed V)
    (root : ∀ x, V x → x.parent = none → d'.slotId D' x = d.slotId D x)
    (same : ∀ y, V y → y.isIndex = true → D' (d.slotId D y) = D (d.slotId D y)) (x : Slot)
    (valid : V x) : d'.slotId D' x = d.slotId D x := by
  induction x using parent_induction with
  | step x ih =>
    cases h : x.parent with
    | none => exact root x valid h
    | some p =>
      have parentValid := closed x p h valid
      rw [DiskInode.slotId_child h, DiskInode.slotId_child h, ih p h parentValid,
        same p parentValid (parent_isIndex h)]

theorem slotId_congr (closed : Closed V)
    (same : ∀ y, V y → y.isIndex = true → D' (d.slotId D y) = D (d.slotId D y)) (x : Slot)
    (valid : V x) : d.slotId D' x = d.slotId D x :=
  slotId_congr_root closed (fun _ _ h => DiskInode.slotId_root h) same x valid

namespace BlockMap

theorem congr (map : BlockMap bm d D V) (same : ∀ x, W x ↔ V x) : BlockMap bm d D W := by
  have eq : W = V := funext fun x => propext (same x)
  rw [eq]
  exact map

/-- Writes to other blocks leave the block map alone, as long as no bit is cleared. -/
theorem frame (map : BlockMap bm d D V)
    (same : ∀ y, V y → y.isIndex = true → D' (d.slotId D y) = D (d.slotId D y))
    (kept : ∀ x, V x → bm.Used D' (d.slotId D x)) : BlockMap bm d D' V := by
  have ids := slotId_congr map.closed same
  refine ⟨map.closed, ?_, ?_, map.no1, map.no2⟩
  · intro x valid
    rw [ids x valid]
    exact kept x valid
  · intro x y validX validY eq
    rw [ids x validX, ids y validY] at eq
    exact map.inj x y validX validY eq

end BlockMap

end

/-! ## Allocation -/

/-- The slots in `N` get the first free blocks, in order; the ids of the slots in `V` stay,
and only bitmap blocks and index blocks are written. -/
structure Grown (bm : Bitmap) (V : Slot → Prop) (N : List Slot) (d : DiskInode) (s : Disk)
    (d' : DiskInode) (s' : Disk) : Prop where
  attrs : d' = { d with
    direct := d'.direct, indirect1 := d'.indirect1, indirect2 := d'.indirect2 }
  keeps : ∀ x, V x → d'.slotId s'.blocks x = d.slotId s.blocks x
  takes : bm.freeIds s.blocks = N.map (d'.slotId s'.blocks) ++ bm.freeIds s'.blocks
  no1 : ¬ V ind1 → ind1 ∉ N → d'.indirect1 = 0
  no2 : ¬ V ind2 → ind2 ∉ N → d'.indirect2 = 0
  touches : Touches (fun b => bm.Holds b ∨
    ∃ x, x.isIndex = true ∧ (V x ∨ x ∈ N) ∧ b = d'.slotId s'.blocks x) s s'

namespace Grown

variable {bm : Bitmap} {V : Slot → Prop} {N M : List Slot} {d d' d'' : DiskInode} {s s' s'' : Disk}

theorem refl (map : BlockMap bm d s.blocks V) : Grown bm V [] d s d s :=
  ⟨rfl, fun _ _ => rfl, rfl, fun h _ => map.no1 h, fun h _ => map.no2 h, .refl _ _⟩

theorem congr {W : Slot → Prop} (grown : Grown bm V N d s d' s') (same : ∀ x, W x ↔ V x) :
    Grown bm W N d s d' s' := by
  have eq : W = V := funext fun x => propext (same x)
  rw [eq]
  exact grown

theorem trans (first : Grown bm V N d s d' s')
    (second : Grown bm (fun x => V x ∨ x ∈ N) M d' s' d'' s'') :
    Grown bm V (N ++ M) d s d'' s'' := by
  constructor
  case attrs => rw [second.attrs, first.attrs]
  case keeps =>
    intro x valid
    rw [second.keeps x (.inl valid), first.keeps x valid]
  case takes =>
    have old : N.map (d'.slotId s'.blocks) = N.map (d''.slotId s''.blocks) :=
      List.map_congr_left fun x member => (second.keeps x (.inr member)).symm
    rw [first.takes, second.takes, old, List.map_append, List.append_assoc]
  case no1 =>
    intro out absent
    rw [List.mem_append, not_or] at absent
    exact second.no1 (by simp [out, absent.1]) absent.2
  case no2 =>
    intro out absent
    rw [List.mem_append, not_or] at absent
    exact second.no2 (by simp [out, absent.1]) absent.2
  case touches =>
    refine .trans (first.touches.mono ?_) (second.touches.mono ?_)
    · rintro b (holds | ⟨x, isIndex, member, rfl⟩)
      · exact .inl holds
      · refine .inr ⟨x, isIndex, ?_, (second.keeps x member).symm⟩
        rw [List.mem_append]
        exact member.imp_right .inl
    · rintro b (holds | ⟨x, isIndex, member, rfl⟩)
      · exact .inl holds
      · refine .inr ⟨x, isIndex, ?_, rfl⟩
        rw [List.mem_append, ← or_assoc]
        exact member

/-- The taken blocks were free and are distinct. -/
theorem fresh (grown : Grown bm V N d s d' s') {x : Slot} (member : x ∈ N) :
    d'.slotId s'.blocks x ∈ bm.freeIds s.blocks ∧ d'.slotId s'.blocks x ∉ bm.freeIds s'.blocks := by
  have nodup : (N.map (d'.slotId s'.blocks) ++ bm.freeIds s'.blocks).Nodup :=
    grown.takes ▸ Bitmap.nodup_freeIds
  have taken : d'.slotId s'.blocks x ∈ N.map (d'.slotId s'.blocks) := List.mem_map_of_mem member
  refine ⟨?_, ?_⟩
  · rw [grown.takes]
    exact List.mem_append_left _ taken
  · intro free
    exact List.disjoint_of_nodup_append nodup taken free

/-- After the allocation exactly the taken blocks have become used. -/
theorem used_iff (grown : Grown bm V N d s d' s') (id : Nat) :
    bm.Used s'.blocks id ↔ bm.Used s.blocks id ∨ ∃ x, x ∈ N ∧ id = d'.slotId s'.blocks x := by
  rw [Bitmap.used_iff, Bitmap.used_iff]
  constructor
  · rintro ⟨inside, taken⟩
    by_cases free : id ∈ bm.freeIds s.blocks
    · rw [grown.takes, List.mem_append, List.mem_map] at free
      obtain ⟨x, member, rfl⟩ | free := free
      · exact .inr ⟨x, member, rfl⟩
      · exact absurd free taken
    · exact .inl ⟨inside, free⟩
  · rintro (⟨inside, taken⟩ | ⟨x, member, rfl⟩)
    · refine ⟨inside, fun free => taken ?_⟩
      rw [grown.takes]
      exact List.mem_append_right _ free
    · exact ⟨(Bitmap.mem_freeIds.mp (grown.fresh member).1).1, (grown.fresh member).2⟩

theorem map (grown : Grown bm V N d s d' s') (map : BlockMap bm d s.blocks V)
    (closed : Closed fun x => V x ∨ x ∈ N) :
    BlockMap bm d' s'.blocks fun x => V x ∨ x ∈ N := by
  have old : ∀ x, V x → d'.slotId s'.blocks x ∉ bm.freeIds s.blocks := by
    intro x valid
    rw [grown.keeps x valid]
    exact (Bitmap.used_iff.mp (map.used x valid)).2
  refine ⟨closed, ?_, ?_, ?_, ?_⟩
  · rintro x (valid | member)
    · rw [grown.used_iff, grown.keeps x valid]
      exact .inl (map.used x valid)
    · rw [grown.used_iff]
      exact .inr ⟨x, member, rfl⟩
  · rintro x y (validX | memberX) (validY | memberY) eq
    · rw [grown.keeps x validX, grown.keeps y validY] at eq
      exact map.inj x y validX validY eq
    · exact absurd (eq ▸ (grown.fresh memberY).1) (old x validX)
    · exact absurd (eq ▸ (grown.fresh memberX).1) (old y validY)
    · have nodup : (N.map (d'.slotId s'.blocks) ++ bm.freeIds s'.blocks).Nodup :=
        grown.takes ▸ Bitmap.nodup_freeIds
      exact List.inj_on_of_nodup_map (List.Nodup.of_append_left nodup) memberX memberY eq
  · intro out
    exact grown.no1 (fun h => out (.inl h)) fun h => out (.inr h)
  · intro out
    exact grown.no2 (fun h => out (.inl h)) fun h => out (.inr h)

end Grown

end Sbfs
