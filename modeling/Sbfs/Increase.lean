import Sbfs.BlockMap

/-! # Growing an inode

`run_increase`: with enough free blocks `increase` succeeds, and its effect is `Grown`
over the slots that the larger inode has and the smaller one lacks, in the order in
which the code allocates them (`growSlots`). -/

namespace Sbfs

open Slot

/-- What one successful `alloc` does. -/
structure Alloced (bm : Bitmap) (s : Disk) (id : Nat) (s' : Disk) : Prop where
  free : bm.freeIds s.blocks = id :: bm.freeIds s'.blocks
  touches : Touches bm.Holds s s'

namespace Alloced

variable {bm : Bitmap} {s s' : Disk} {id : Nat}

theorem inSegment (alloced : Alloced bm s id s') : bm.InSegment id := by
  have member : id ∈ bm.freeIds s.blocks := alloced.free ▸ List.mem_cons_self
  exact (Bitmap.mem_freeIds.mp member).1

theorem ne_kFail (alloced : Alloced bm s id s') (segment : bm.Segment s.count) :
    id ≠ kFailId := by
  have := (segment.bound alloced.inSegment).2.2
  simp only [kFailId]
  omega

theorem segment (alloced : Alloced bm s id s') (segment : bm.Segment s.count) :
    bm.Segment s'.count :=
  alloced.touches.count ▸ segment

/-- A block of the segment is not a block of the bitmap. -/
theorem block (alloced : Alloced bm s id s') (segment : bm.Segment s.count) {b : Nat}
    (inside : bm.InSegment b) : s'.blocks b = s.blocks b :=
  alloced.touches.blocks b (segment.not_holds inside)

end Alloced

section

variable {bm : Bitmap} {V : Slot → Prop} {d d' : DiskInode} {s s₁ s₂ : Disk} {id : Nat}

theorem run_alloc (segment : bm.Segment s.count) (enough : 1 ≤ (bm.freeIds s.blocks).length) :
    ∃ id s', bm.alloc.run s = (id, s') ∧ Alloced bm s id s' := by
  cases free : bm.freeIds s.blocks with
  | nil =>
    rw [free] at enough
    cases enough
  | cons id ids =>
    have member : id ∈ bm.freeIds s.blocks := free ▸ List.mem_cons_self
    have bound := segment.bound (Bitmap.mem_freeIds.mp member).1
    obtain ⟨s', run, rest, touches⟩ := Bitmap.run_alloc_id segment.toFits free (by omega)
    exact ⟨id, s', run, rest ▸ free, touches⟩

/-! ## One slot -/

/-- A slot of the inode itself. -/
theorem grown_root (map : BlockMap bm d s.blocks V) (segment : bm.Segment s.count)
    (alloced : Alloced bm s id s₁) {x : Slot} (out : ¬ V x)
    (here : d'.slotId s₁.blocks x = id)
    (root : ∀ z, z ≠ x → z.parent = none → d'.slotId s₁.blocks z = d.slotId s.blocks z)
    (attrs : d' = { d with
      direct := d'.direct, indirect1 := d'.indirect1, indirect2 := d'.indirect2 })
    (one : x ≠ ind1 → d'.indirect1 = d.indirect1) (two : x ≠ ind2 → d'.indirect2 = d.indirect2) :
    Grown bm V [x] d s d' s₁ := by
  constructor
  case attrs => exact attrs
  case keeps =>
    refine slotId_congr_root map.closed ?_ ?_
    · intro z valid none
      exact root z (fun same => out (same ▸ valid)) none
    · intro y valid _
      exact alloced.block segment (map.used y valid).1
  case takes => rw [List.map_singleton, here, alloced.free, List.singleton_append]
  case no1 =>
    intro absent ne
    rw [one fun same => ne (by simp [same])]
    exact map.no1 absent
  case no2 =>
    intro absent ne
    rw [two fun same => ne (by simp [same])]
    exact map.no2 absent
  case touches => exact alloced.touches.mono fun b => .inl

/-- A slot whose id goes into an index block: `s₂` is `s₁` with the entry set. -/
theorem grown_entry (map : BlockMap bm d s.blocks V) (segment : bm.Segment s.count)
    (alloced : Alloced bm s id s₁) {x y : Slot} (out : ¬ V x) (parent : x.parent = some y)
    (parentValid : V y) (inside : x.index < 1024)
    (touches : Touches (fun b => b = d.slotId s.blocks y) s₁ s₂)
    (content : s₂.blocks (d.slotId s.blocks y) =
      setEntry (s.blocks (d.slotId s.blocks y)) x.index id) :
    Grown bm V [x] d s d s₂ := by
  have id32 : id < 4294967296 := by
    have := segment.bound alloced.inSegment
    omega
  have other : ∀ b, bm.InSegment b → b ≠ d.slotId s.blocks y → s₂.blocks b = s.blocks b := by
    intro b inside ne
    rw [touches.blocks b ne, alloced.block segment inside]
  -- down from the inode, each id is looked up in an unchanged entry
  have keeps : ∀ z, V z → d.slotId s₂.blocks z = d.slotId s.blocks z := by
    intro z valid
    induction z using parent_induction with
    | step z ih =>
      cases h : z.parent with
      | none => exact DiskInode.slotId_root h
      | some p =>
        have parentOk := map.closed z p h valid
        rw [DiskInode.slotId_child h, DiskInode.slotId_child h, ih p h parentOk]
        by_cases same : p = y
        · subst same
          rw [content, entry_setEntry _ inside id32, if_neg]
          intro eq
          exact out (eq_of_parent h parent eq ▸ valid)
        · rw [other _ (map.used p parentOk).1]
          exact fun eq => same (map.inj p y parentOk parentValid eq)
  have here : d.slotId s₂.blocks x = id := by
    rw [DiskInode.slotId_child parent, keeps y parentValid, content, entry_setEntry _ inside id32,
      if_pos rfl]
  have bits : bm.freeIds s₂.blocks = bm.freeIds s₁.blocks := by
    refine Bitmap.freeIds_congr fun b holds => touches.blocks b fun same => ?_
    exact segment.not_holds (map.used y parentValid).1 (same ▸ holds)
  constructor
  case attrs => rfl
  case keeps => exact keeps
  case takes => rw [List.map_singleton, here, alloced.free, bits, List.singleton_append]
  case no1 => exact fun absent _ => map.no1 absent
  case no2 => exact fun absent _ => map.no2 absent
  case touches =>
    refine .trans (alloced.touches.mono fun b => .inl) (touches.mono ?_)
    rintro b rfl
    exact .inr ⟨y, parent_isIndex parent, .inl parentValid, (keeps y parentValid).symm⟩

/-! ## The loop over `direct` -/

theorem Closed.cons {x : Slot} (closed : Closed V) (parent : ∀ p, x.parent = some p → V p) :
    Closed fun z => V z ∨ z ∈ [x] := by
  rintro z p h (valid | member)
  · exact .inl (closed z p h valid)
  · rw [List.mem_singleton] at member
    exact .inl (parent p (member ▸ h))

/-- The valid slots together with one that the inode itself holds. -/
theorem closed_with {x : Slot} (root : x.parent = none) (n : Nat) :
    Closed fun z => z = x ∨ Valid n z := by
  rintro z p h (rfl | valid)
  · rw [root] at h
    cases h
  · exact .inr (closed_valid n z p h valid)

theorem Closed.congr {W : Slot → Prop} (closed : Closed V) (same : ∀ x, W x ↔ V x) : Closed W := by
  intro x p h valid
  exact (same p).mpr (closed x p h ((same x).mp valid))

theorem run_allocDirect {n i : Nat} (map : BlockMap bm d s.blocks (Valid i))
    (segment : bm.Segment s.count) (bound : n ≤ 23 - i)
    (enough : n ≤ (bm.freeIds s.blocks).length) :
    ∃ d' s', (DiskInode.allocEach bm DiskInode.setDirect n i d).run s = ((.kSuccess, d'), s') ∧
      Grown bm (Valid i) ((List.range' i n).map data) d s d' s' := by
  induction n generalizing i d s with
  | zero => exact ⟨d, s, rfl, .refl map⟩
  | succ n ih =>
    obtain ⟨id, s₁, run, alloced⟩ := run_alloc segment (by omega)
    have small := (segment.bound alloced.inSegment).2.2
    have low : i < 23 := by omega
    have step : Grown bm (Valid i) [data i] d s (d.setDirect i id) s₁ := by
      refine grown_root map segment alloced (by simp [Valid]) ?_ ?_ rfl (fun _ => rfl) fun _ => rfl
      · rw [DiskInode.slotId_direct low, DiskInode.directAt_setDirect low (by omega), if_pos rfl]
      · intro z ne none
        cases z with
        | data k =>
          have other : k ≠ i := fun same => ne (same ▸ rfl)
          rw [DiskInode.slotId_direct (data_root none), DiskInode.slotId_direct (data_root none),
            DiskInode.directAt_setDirect low (by omega), if_neg other]
        | ind1 => rfl
        | ind2 => rfl
        | second q => cases none
    have succ : ∀ x, Valid (i + 1) x ↔ Valid i x ∨ x ∈ [data i] := by
      intro x
      cases x <;> simp only [Valid, List.mem_singleton, data.injEq, reduceCtorEq, or_false] <;> omega
    have map₁ := (step.map map ((closed_valid (i + 1)).congr fun x => (succ x).symm)).congr succ
    have count := alloced.free ▸ enough
    rw [List.length_cons] at count
    obtain ⟨d', s', rest, grown⟩ := ih map₁ (alloced.segment segment) (by omega) (by omega)
    refine ⟨d', s', ?_, ?_⟩
    · have ne := alloced.ne_kFail segment
      simp only [DiskInode.allocEach, DevProg.run_bind, run, ne, if_false, rest]
    · rw [List.range'_succ, List.map_cons]
      exact step.trans (grown.congr fun x => (succ x).symm)

/-! ## The loop over the entries of `indirect1`

The loop works on a copy of the index block; `shadow` is the store that has the copy
in place. -/

/-- The store with block `b` replaced behind the back of the write log. -/
def shadow (s : Disk) (b : Nat) (blk : Block) : Disk :=
  { s with blocks := Function.update s.blocks b blk }

theorem shadow_self (s : Disk) (b : Nat) : shadow s b (s.blocks b) = s := by
  simp [shadow]

theorem shadow_freeIds {b : Nat} (out : ¬ bm.Holds b) (blk : Block) :
    bm.freeIds (shadow s b blk).blocks = bm.freeIds s.blocks :=
  Bitmap.freeIds_congr fun c holds =>
    Function.update_of_ne (fun same : c = b => out (same ▸ holds)) _ _

theorem Alloced.shadow {b : Nat} (alloced : Alloced bm s id s₁) (out : ¬ bm.Holds b)
    (blk : Block) : Alloced bm (shadow s b blk) id (shadow s₁ b blk) := by
  refine ⟨?_, alloced.touches.count, ?_, alloced.touches.writes⟩
  · rw [shadow_freeIds out, shadow_freeIds out, alloced.free]
  · intro c outside
    by_cases same : c = b
    · simp [Sbfs.shadow, same]
    · simp [Sbfs.shadow, same, alloced.touches.blocks c outside]

theorem run_allocEntries {n i : Nat} {p : Block}
    (map : BlockMap bm d (shadow s d.indirect1.toNat p).blocks fun x => x = ind1 ∨ Valid i x)
    (segment : bm.Segment s.count) (low : 23 ≤ i) (bound : n ≤ 1047 - i)
    (enough : n ≤ (bm.freeIds s.blocks).length) :
    ∃ p' s', (DiskInode.allocEach bm (fun p i newBlk => setEntry p (i - 23) newBlk) n i p).run s =
        ((.kSuccess, p'), s') ∧ bm.Segment s'.count ∧
      Grown bm (fun x => x = ind1 ∨ Valid i x) ((List.range' i n).map data)
        d (shadow s d.indirect1.toNat p) d (shadow s' d.indirect1.toNat p') := by
  induction n generalizing i p s with
  | zero => exact ⟨p, s, rfl, segment, .refl map⟩
  | succ n ih =>
    obtain ⟨id, s₁, run, alloced⟩ := run_alloc segment (by omega)
    have out : ¬ bm.Holds d.indirect1.toNat := segment.not_holds (map.used ind1 (.inl rfl)).1
    have parent : (data i).parent = some ind1 := by
      simp only [Slot.parent]
      rw [if_neg (by omega), if_pos (by omega)]
    have index : (data i).index = i - 23 := by
      simp only [Slot.index]
      rw [if_pos (by omega)]
    -- the new entry is in the buffer, which stands for the block of `indirect1` until it is written back
    have step : Grown bm (fun x => x = ind1 ∨ Valid i x) [data i] d (shadow s d.indirect1.toNat p)
        d (shadow s₁ d.indirect1.toNat (setEntry p (i - 23) id)) := by
      refine grown_entry map segment (alloced.shadow out p) (by simp [Valid]) parent (.inl rfl)
        (by omega) ⟨rfl, ?_, [], by simp [shadow], by simp⟩ ?_
      · intro b ne
        have ne : b ≠ d.indirect1.toNat := ne
        simp [shadow, ne]
      · simp [shadow, DiskInode.slotId, index]
    have succ : ∀ x, (x = ind1 ∨ Valid (i + 1) x) ↔ (x = ind1 ∨ Valid i x) ∨ x ∈ [data i] := by
      intro x
      cases x <;> simp only [Valid, List.mem_singleton, data.injEq, reduceCtorEq, or_false,
        false_or, true_or] <;> omega
    have map₁ := (step.map map ((closed_with rfl (i + 1)).congr fun x => (succ x).symm)).congr succ
    have count := alloced.free ▸ enough
    rw [List.length_cons] at count
    obtain ⟨p', s', rest, segment', grown⟩ :=
      ih map₁ (alloced.segment segment) (by omega) (by omega) (by omega)
    refine ⟨p', s', ?_, segment', ?_⟩
    · have ne := alloced.ne_kFail segment
      simp only [DiskInode.allocEach, DevProg.run_bind, run, ne, if_false, rest]
    · rw [List.range'_succ, List.map_cons]
      exact step.trans (grown.congr fun x => (succ x).symm)

/-- Writing a block with the content it has already changes the log only. -/
theorem Grown.rewrite {N : List Slot} (grown : Grown bm V N d s d' s₁)
    (blocks : s₂.blocks = s₁.blocks) (count : s₂.count = s₁.count) {b : Nat} {blk : Block}
    (writes : s₂.writes = s₁.writes ++ [(b, blk)]) {x : Slot} (isIndex : x.isIndex = true)
    (member : V x ∨ x ∈ N) (here : b = d'.slotId s₁.blocks x) : Grown bm V N d s d' s₂ := by
  refine ⟨grown.attrs, ?_, ?_, grown.no1, grown.no2, ?_⟩
  · rw [blocks]
    exact grown.keeps
  · rw [blocks]
    exact grown.takes
  · rw [blocks]
    refine grown.touches.trans ⟨count, fun c _ => by rw [blocks], [(b, blk)], writes, ?_⟩
    intro w member'
    rw [List.mem_singleton.mp member']
    exact .inr ⟨x, isIndex, member, here⟩

theorem run_fillIndirect1 {m n : Nat}
    (map : BlockMap bm d s.blocks fun x => x = ind1 ∨ Valid (max m 23) x)
    (segment : bm.Segment s.count)
    (enough : min n 1047 - max m 23 ≤ (bm.freeIds s.blocks).length) :
    ∃ s', (d.fillIndirect1 m n bm).run s = ((.kSuccess, d), s') ∧
      Grown bm (fun x => x = ind1 ∨ Valid (max m 23) x)
        ((List.range' (max m 23) (min n 1047 - max m 23)).map data) d s d s' := by
  have onDevice : d.indirect1.toNat < s.count :=
    (segment.bound (map.used ind1 (.inl rfl)).1).2.1
  rw [← shadow_self s d.indirect1.toNat] at map
  obtain ⟨p', s', run, segment', grown⟩ :=
    run_allocEntries map segment (by omega) (by omega) enough
  have count : s'.count = s.count := grown.touches.count
  rw [shadow_self] at grown
  refine ⟨s'.put d.indirect1.toNat p', ?_, ?_⟩
  · simp only [DiskInode.fillIndirect1, DevProg.run_bind, DevProg.run_readBlk_of_lt onDevice, run,
      DevProg.run_writeBlk_of_lt p' (count ▸ onDevice), if_true, DevProg.run_pure]
  · refine grown.rewrite ?_ rfl rfl rfl (.inl (.inl rfl)) rfl
    rw [Store.put_blocks_of_lt _ _ (count ▸ onDevice)]
    rfl

theorem grown_ind1 {i : Nat} (map : BlockMap bm d s.blocks (Valid i))
    (segment : bm.Segment s.count) (alloced : Alloced bm s id s₁) (low : i ≤ 23) :
    Grown bm (Valid i) [ind1] d s { d with indirect1 := UInt32.ofNat id } s₁ := by
  have id32 : id < 4294967296 := by
    have := segment.bound alloced.inSegment
    omega
  refine grown_root map segment alloced (by simp only [Valid]; omega) ?_ ?_ rfl
    (fun ne => absurd rfl ne) fun _ => rfl
  · simp [DiskInode.slotId, Nat.mod_eq_of_lt id32]
  · intro z ne none
    cases z with
    | data k =>
      rw [DiskInode.slotId_direct (data_root none), DiskInode.slotId_direct (data_root none)]
      rfl
    | ind1 => exact absurd rfl ne
    | ind2 => rfl
    | second q => cases none

theorem run_increaseIndirect1 {m n : Nat} (map : BlockMap bm d s.blocks (Valid (max m 23)))
    (segment : bm.Segment s.count)
    (enough : (if m ≤ 23 then 1 else 0) + (min n 1047 - max m 23) ≤ (bm.freeIds s.blocks).length) :
    ∃ d' s', (d.increaseIndirect1 m n bm).run s = ((.kSuccess, d'), s') ∧
      Grown bm (Valid (max m 23)) ((if m ≤ 23 then [ind1] else []) ++
        (List.range' (max m 23) (min n 1047 - max m 23)).map data) d s d' s' := by
  by_cases small : m ≤ 23
  · have start : max m 23 = 23 := by omega
    rw [start] at map enough ⊢
    simp only [small, if_true] at enough ⊢
    -- the index block is new
    have zero : d.indirect1 = 0 := map.no1 (by simp [Valid])
    obtain ⟨id, s₁, run, alloced⟩ := run_alloc segment (by omega)
    have step := grown_ind1 map segment alloced (Nat.le_refl 23)
    have same : ∀ x, (x = ind1 ∨ Valid 23 x) ↔ Valid 23 x ∨ x ∈ [ind1] := by
      intro x
      rw [List.mem_singleton, or_comm]
    have map₁ := (step.map map ((closed_with rfl 23).congr fun x => (same x).symm)).congr same
    have count := alloced.free ▸ enough
    rw [List.length_cons] at count
    rw [← start] at map₁
    obtain ⟨s', rest, grown⟩ :=
      run_fillIndirect1 (n := n) map₁ (alloced.segment segment) (by rw [start]; omega)
    rw [start] at grown
    refine ⟨_, s', ?_, step.trans (grown.congr fun x => (same x).symm)⟩
    have ne := alloced.ne_kFail segment
    simp only [DiskInode.increaseIndirect1, zero, if_true, DevProg.run_bind, run, ne, if_false, rest]
  · -- the index block is there, and the entries go into it
    have present : Valid (max m 23) ind1 := by
      simp only [Valid]
      omega
    have same : ∀ x, (x = ind1 ∨ Valid (max m 23) x) ↔ Valid (max m 23) x := by
      intro x
      constructor
      · rintro (rfl | valid)
        · exact present
        · exact valid
      · exact .inr
    have nonzero : ¬ d.indirect1 = 0 := by
      intro zero
      have := segment.bound (map.used ind1 present).1
      simp [DiskInode.slotId, zero] at this
    simp only [small, if_false, List.nil_append] at enough ⊢
    obtain ⟨s', rest, grown⟩ :=
      run_fillIndirect1 (n := n) (map.congr same) segment (by omega)
    refine ⟨d, s', ?_, grown.congr fun x => (same x).symm⟩
    simp only [DiskInode.increaseIndirect1, nonzero, if_false, rest]

/-! ## The loop under `indirect2` -/

/-- The slots that data block `i` brings with it in step three. -/
def groupSlots (i : Nat) : List Slot :=
  (if (i - 1047) % 1024 = 0 then [second ((i - 1047) / 1024)] else []) ++ [data i]

theorem run_secondLevel {i : Nat}
    (map : BlockMap bm d s.blocks fun x => x = ind2 ∨ Valid i x) (segment : bm.Segment s.count)
    (low : 1047 ≤ i) (high : i < 1048576)
    (enough : (if (i - 1047) % 1024 = 0 then 1 else 0) ≤ (bm.freeIds s.blocks).length) :
    ∃ s', (DiskInode.secondLevel bm d.indirect2.toNat ((i - 1047) / 1024) (((i : Int) - 1048) / 1024)
        (s.blocks d.indirect2.toNat)).run s =
        (some ((((i + 1 : Nat) : Int) - 1048) / 1024, s'.blocks d.indirect2.toNat), s') ∧
      Grown bm (fun x => x = ind2 ∨ Valid i x)
        (if (i - 1047) % 1024 = 0 then [second ((i - 1047) / 1024)] else []) d s d s' := by
  by_cases first : (i - 1047) % 1024 = 0
  · have above : ((i : Int) - 1048) / 1024 < ((i - 1047) / 1024 : Nat) := by omega
    have next : ((i : Int) - 1048) / 1024 + 1 = (((i + 1 : Nat) : Int) - 1048) / 1024 := by omega
    simp only [first, if_true] at enough ⊢
    obtain ⟨id, s₁, run, alloced⟩ := run_alloc segment enough
    have onDevice : d.indirect2.toNat < s₁.count :=
      alloced.touches.count ▸ (segment.bound (map.used ind2 (.inl rfl)).1).2.1
    have content : s₁.blocks d.indirect2.toNat = s.blocks d.indirect2.toNat :=
      alloced.block segment (map.used ind2 (.inl rfl)).1
    refine ⟨s₁.put d.indirect2.toNat (setEntry (s.blocks d.indirect2.toNat) ((i - 1047) / 1024) id),
      ?_, ?_⟩
    · have ne := alloced.ne_kFail segment
      simp only [DiskInode.secondLevel, above, if_true, DevProg.run_bind, run, ne, if_false,
        DevProg.run_writeBlk_of_lt _ onDevice, DevProg.run_pure, next,
        Store.put_blocks_same _ _ onDevice]
    · refine grown_entry (y := ind2) map segment alloced ?_ rfl (.inl rfl) ?_ (.put _ _ rfl) ?_
      · simp only [Valid, reduceCtorEq, false_or]
        omega
      · simp only [Slot.index]
        omega
      · exact Store.put_blocks_same _ _ onDevice
  · have below : ¬ ((i : Int) - 1048) / 1024 < ((i - 1047) / 1024 : Nat) := by omega
    have next : ((i : Int) - 1048) / 1024 = (((i + 1 : Nat) : Int) - 1048) / 1024 := by omega
    simp only [first, if_false]
    refine ⟨s, ?_, .refl map⟩
    simp only [DiskInode.secondLevel, below, if_false, DevProg.run_pure]
    rw [next]

theorem run_appendEntry {x y : Slot} (map : BlockMap bm d s.blocks V) (segment : bm.Segment s.count)
    (enough : 1 ≤ (bm.freeIds s.blocks).length) (out : ¬ V x) (parent : x.parent = some y)
    (parentValid : V y) (inside : x.index < 1024) :
    ∃ s', (DiskInode.appendEntry bm (d.slotId s.blocks y) x.index).run s = (.kSuccess, s') ∧
      Touches (fun b => bm.Holds b ∨ b = d.slotId s.blocks y) s s' ∧ Grown bm V [x] d s d s' := by
  obtain ⟨id, s₁, run, alloced⟩ := run_alloc segment enough
  have onDevice := (segment.bound (map.used y parentValid).1).2.1
  have onDevice₁ : d.slotId s.blocks y < s₁.count := alloced.touches.count ▸ onDevice
  refine ⟨s₁.put (d.slotId s.blocks y) (setEntry (s.blocks (d.slotId s.blocks y)) x.index id),
    ?_, ?_, ?_⟩
  · have ne := alloced.ne_kFail segment
    simp only [DiskInode.appendEntry, DevProg.run_bind, DevProg.run_readBlk_of_lt onDevice, run, ne,
      if_false, DevProg.run_writeBlk_of_lt _ onDevice₁, if_true, DevProg.run_pure]
  · exact (alloced.touches.mono fun b => .inl).trans (.put _ _ (.inr rfl))
  · exact grown_entry map segment alloced out parent parentValid inside (.put _ _ rfl)
      (Store.put_blocks_same _ _ onDevice₁)

theorem groupSlots_length (i : Nat) :
    (groupSlots i).length = (if (i - 1047) % 1024 = 0 then 1 else 0) + 1 := by
  rw [groupSlots]
  split <;> rfl

theorem valid_succ_group {i : Nat} (low : 1047 ≤ i) (x : Slot) :
    (x = ind2 ∨ Valid (i + 1) x) ↔ (x = ind2 ∨ Valid i x) ∨ x ∈ groupSlots i := by
  simp only [groupSlots]
  split <;> cases x <;> simp only [Valid, List.mem_append, List.mem_singleton, List.not_mem_nil,
    data.injEq, second.injEq, reduceCtorEq, or_false, false_or, true_or] <;> omega

/-- One round of the loop: the slots of data block `i`. -/
theorem run_growGroup {i : Nat} (map : BlockMap bm d s.blocks fun x => x = ind2 ∨ Valid i x)
    (segment : bm.Segment s.count) (low : 1047 ≤ i) (high : i < 1048576)
    (enough : (groupSlots i).length ≤ (bm.freeIds s.blocks).length) :
    ∃ s', Grown bm (fun x => x = ind2 ∨ Valid i x) (groupSlots i) d s d s' ∧
      BlockMap bm d s'.blocks (fun x => x = ind2 ∨ Valid (i + 1) x) ∧
      ∀ n, (DiskInode.growIndirect2 bm d.indirect2.toNat (n + 1) i (((i : Int) - 1048) / 1024)
          (s.blocks d.indirect2.toNat)).run s =
        (DiskInode.growIndirect2 bm d.indirect2.toNat n (i + 1) ((((i + 1 : Nat) : Int) - 1048) / 1024)
          (s'.blocks d.indirect2.toNat)).run s' := by
  rw [groupSlots_length] at enough
  -- the second-level block, where a group starts, and then the data block
  obtain ⟨s₁, run₁, grown₁⟩ := run_secondLevel map segment low high (by omega)
  have segment₁ : bm.Segment s₁.count := grown₁.touches.count ▸ segment
  have closed₁ : Closed fun x => (x = ind2 ∨ Valid i x) ∨
      x ∈ (if (i - 1047) % 1024 = 0 then [second ((i - 1047) / 1024)] else []) := by
    split
    · exact (closed_with (x := ind2) rfl i).cons fun p h => by cases h; exact .inl rfl
    · exact (closed_with (x := ind2) rfl i).congr fun x => by simp
  have map₁ := grown₁.map map closed₁
  have free₁ : (if (i - 1047) % 1024 = 0 then 1 else 0) + (bm.freeIds s₁.blocks).length =
      (bm.freeIds s.blocks).length := by
    rw [grown₁.takes, List.length_append, List.length_map]
    split <;> rfl
  have parent : (data i).parent = some (second ((i - 1047) / 1024)) := by
    simp only [Slot.parent]
    rw [if_neg (by omega), if_neg (by omega)]
  have index : (data i).index = (i - 1047) % 1024 := by
    simp only [Slot.index]
    rw [if_neg (by omega)]
  have out : ¬ ((data i = ind2 ∨ Valid i (data i)) ∨
      data i ∈ (if (i - 1047) % 1024 = 0 then [second ((i - 1047) / 1024)] else [])) := by
    split <;> simp [Valid]
  have parentValid : (second ((i - 1047) / 1024) = ind2 ∨ Valid i (second ((i - 1047) / 1024))) ∨
      second ((i - 1047) / 1024) ∈
        (if (i - 1047) % 1024 = 0 then [second ((i - 1047) / 1024)] else []) := by
    split
    · simp
    · left; right
      simp only [Valid]
      omega
  obtain ⟨s₂, run₂, touches₂, grown₂⟩ :=
    run_appendEntry map₁ segment₁ (by omega) out parent parentValid (by omega)
  -- the data block is entered into the second-level block, and the buffer of `indirect2` stays right
  have content : s₂.blocks d.indirect2.toNat = s₁.blocks d.indirect2.toNat := by
    refine touches₂.blocks _ ?_
    rintro (holds | same)
    · exact segment₁.not_holds (map₁.used ind2 (.inl (.inl rfl))).1 holds
    · cases map₁.inj ind2 _ (.inl (.inl rfl)) parentValid same
  have grown₁₂ := grown₁.trans grown₂
  have map₂ := (grown₁₂.map map
    ((closed_with rfl (i + 1)).congr fun x => (valid_succ_group low x).symm)).congr
    (valid_succ_group low)
  refine ⟨s₂, grown₁₂, map₂, fun n => ?_⟩
  rw [index] at run₂
  simp only [DiskInode.slotId] at run₂
  simp only [DiskInode.growIndirect2, DevProg.run_bind, run₁, run₂]
  rw [← content]

theorem run_growIndirect2 {n i : Nat}
    (map : BlockMap bm d s.blocks fun x => x = ind2 ∨ Valid i x) (segment : bm.Segment s.count)
    (low : 1047 ≤ i) (high : i + n ≤ 1048576)
    (enough : ((List.range' i n).flatMap groupSlots).length ≤ (bm.freeIds s.blocks).length) :
    ∃ s', (DiskInode.growIndirect2 bm d.indirect2.toNat n i (((i : Int) - 1048) / 1024)
        (s.blocks d.indirect2.toNat)).run s = (.kSuccess, s') ∧
      Grown bm (fun x => x = ind2 ∨ Valid i x) ((List.range' i n).flatMap groupSlots) d s d s' := by
  induction n generalizing i s with
  | zero => exact ⟨s, rfl, .refl map⟩
  | succ n ih =>
    rw [List.range'_succ, List.flatMap_cons, List.length_append] at enough
    obtain ⟨s₁, grown₁, map₁, round⟩ := run_growGroup map segment low (by omega) (by omega)
    have free₁ : (groupSlots i).length + (bm.freeIds s₁.blocks).length = (bm.freeIds s.blocks).length := by
      rw [grown₁.takes, List.length_append, List.length_map]
    obtain ⟨s₂, run₂, grown₂⟩ := ih map₁ (grown₁.touches.count ▸ segment) (by omega) (by omega) (by omega)
    refine ⟨s₂, by rw [round, run₂], ?_⟩
    rw [List.range'_succ, List.flatMap_cons]
    exact grown₁.trans (grown₂.congr fun x => (valid_succ_group low x).symm)

/-- The last second-level block that is there when the loop starts. -/
theorem blkLimit_eq (m : Nat) : (if (m : Int) - 23 - 1024 - 1 < 0 then (-1 : Int)
    else ((m : Int) - 23 - 1024 - 1).tdiv 1024) = ((max m 1047 : Nat) - 1048 : Int) / 1024 := by
  split
  · omega
  · rw [Int.tdiv_eq_ediv_of_nonneg (by omega)]
    omega

theorem run_fillIndirect2 {m n : Nat}
    (map : BlockMap bm d s.blocks fun x => x = ind2 ∨ Valid (max m 1047) x)
    (segment : bm.Segment s.count) (high : n ≤ 1048576) (le : max m 1047 ≤ n)
    (enough : ((List.range' (max m 1047) (n - max m 1047)).flatMap groupSlots).length ≤
      (bm.freeIds s.blocks).length) :
    ∃ s', (d.fillIndirect2 m n bm).run s = ((.kSuccess, d), s') ∧
      Grown bm (fun x => x = ind2 ∨ Valid (max m 1047) x)
        ((List.range' (max m 1047) (n - max m 1047)).flatMap groupSlots) d s d s' := by
  have onDevice : d.indirect2.toNat < s.count :=
    (segment.bound (map.used ind2 (.inl rfl)).1).2.1
  obtain ⟨s', run, grown⟩ := run_growIndirect2 map segment (by omega) (by omega) enough
  refine ⟨s', ?_, grown⟩
  simp only [DiskInode.fillIndirect2, DevProg.run_bind, DevProg.run_readBlk_of_lt onDevice, blkLimit_eq,
    run, DevProg.run_pure]

theorem grown_ind2 {i : Nat} (map : BlockMap bm d s.blocks (Valid i))
    (segment : bm.Segment s.count) (alloced : Alloced bm s id s₁) (low : i ≤ 1047) :
    Grown bm (Valid i) [ind2] d s { d with indirect2 := UInt32.ofNat id } s₁ := by
  have id32 : id < 4294967296 := by
    have := segment.bound alloced.inSegment
    omega
  refine grown_root map segment alloced (by simp only [Valid]; omega) ?_ ?_ rfl
    (fun _ => rfl) fun ne => absurd rfl ne
  · simp [DiskInode.slotId, Nat.mod_eq_of_lt id32]
  · intro z ne none
    cases z with
    | data k =>
      rw [DiskInode.slotId_direct (data_root none), DiskInode.slotId_direct (data_root none)]
      rfl
    | ind1 => rfl
    | ind2 => exact absurd rfl ne
    | second q => cases none

theorem run_increaseIndirect2 {m n : Nat} (map : BlockMap bm d s.blocks (Valid (max m 1047)))
    (segment : bm.Segment s.count) (high : n ≤ 1048576) (le : max m 1047 ≤ n)
    (enough : (if m ≤ 1047 then 1 else 0) +
      ((List.range' (max m 1047) (n - max m 1047)).flatMap groupSlots).length ≤
        (bm.freeIds s.blocks).length) :
    ∃ d' s', (d.increaseIndirect2 m n bm).run s = ((.kSuccess, d'), s') ∧
      Grown bm (Valid (max m 1047)) ((if m ≤ 1047 then [ind2] else []) ++
        (List.range' (max m 1047) (n - max m 1047)).flatMap groupSlots) d s d' s' := by
  by_cases small : m ≤ 1047
  · have start : max m 1047 = 1047 := by omega
    rw [start] at map enough le ⊢
    simp only [small, if_true] at enough ⊢
    -- the index block is new
    have zero : d.indirect2 = 0 := map.no2 (by simp [Valid])
    obtain ⟨id, s₁, run, alloced⟩ := run_alloc segment (by omega)
    have step := grown_ind2 map segment alloced (Nat.le_refl 1047)
    have same : ∀ x, (x = ind2 ∨ Valid 1047 x) ↔ Valid 1047 x ∨ x ∈ [ind2] := by
      intro x
      rw [List.mem_singleton, or_comm]
    have map₁ := (step.map map ((closed_with rfl 1047).congr fun x => (same x).symm)).congr same
    have count := alloced.free ▸ enough
    rw [List.length_cons] at count
    rw [← start] at map₁
    obtain ⟨s', rest, grown⟩ := run_fillIndirect2 (n := n) map₁ (alloced.segment segment) high
      (by rw [start]; exact le) (by rw [start]; omega)
    rw [start] at grown
    refine ⟨_, s', ?_, step.trans (grown.congr fun x => (same x).symm)⟩
    have ne := alloced.ne_kFail segment
    simp only [DiskInode.increaseIndirect2, zero, if_true, DevProg.run_bind, run, ne, if_false, rest]
  · have present : Valid (max m 1047) ind2 := by
      simp only [Valid]
      omega
    have same : ∀ x, (x = ind2 ∨ Valid (max m 1047) x) ↔ Valid (max m 1047) x := by
      intro x
      constructor
      · rintro (rfl | valid)
        · exact present
        · exact valid
      · exact .inr
    have nonzero : ¬ d.indirect2 = 0 := by
      intro zero
      have := segment.bound (map.used ind2 present).1
      simp [DiskInode.slotId, zero] at this
    simp only [small, if_false, List.nil_append] at enough ⊢
    obtain ⟨s', rest, grown⟩ := run_fillIndirect2 (n := n) (map.congr same) segment high le (by omega)
    refine ⟨d, s', ?_, grown.congr fun x => (same x).symm⟩
    simp only [DiskInode.increaseIndirect2, nonzero, if_false, rest]

/-! ## `increase` -/

/-- The slots that `increase` allocates to go from `m` to `n` data blocks, in order. -/
def growSlots (m n : Nat) : List Slot :=
  (List.range' m (min n 23 - m)).map data ++
  (if 23 < n then (if m ≤ 23 then [ind1] else []) ++
    (List.range' (max m 23) (min n 1047 - max m 23)).map data else []) ++
  (if 1047 < n then (if m ≤ 1047 then [ind2] else []) ++
    (List.range' (max m 1047) (n - max m 1047)).flatMap groupSlots else [])

theorem mem_group (i : Nat) (x : Slot) :
    x ∈ groupSlots i ↔ x = data i ∨ (i - 1047) % 1024 = 0 ∧ x = second ((i - 1047) / 1024) := by
  rw [groupSlots]
  split <;> simp [*, or_comm]

theorem mem_groups {m n : Nat} (low : 1047 ≤ m) (x : Slot) :
    x ∈ (List.range' m (n - m)).flatMap groupSlots ↔
      (Valid n x ∧ ¬ Valid m x) ∧ x ≠ ind1 ∧ x ≠ ind2 := by
  simp only [List.mem_flatMap, List.mem_range'_1, mem_group]
  constructor
  · rintro ⟨i, bound, rfl | ⟨first, rfl⟩⟩
    · exact ⟨⟨by simp only [Valid]; omega, by simp only [Valid]; omega⟩, by simp, by simp⟩
    · exact ⟨⟨by simp only [Valid]; omega, by simp only [Valid]; omega⟩, by simp, by simp⟩
  · rintro ⟨⟨valid, new⟩, notOne, notTwo⟩
    cases x with
    | data k =>
      simp only [Valid] at valid new
      exact ⟨k, by omega, .inl rfl⟩
    | ind1 => exact absurd rfl notOne
    | ind2 => exact absurd rfl notTwo
    | second q =>
      simp only [Valid] at valid new
      refine ⟨1047 + 1024 * q, by omega, .inr ⟨by omega, ?_⟩⟩
      congr 1
      omega

theorem mem_dataRange (m n : Nat) (x : Slot) :
    x ∈ (List.range' m n).map data ↔ ∃ k, x = data k ∧ m ≤ k ∧ k < m + n := by
  simp only [List.mem_map, List.mem_range'_1]
  constructor
  · rintro ⟨k, bound, rfl⟩
    exact ⟨k, rfl, bound⟩
  · rintro ⟨k, rfl, bound⟩
    exact ⟨k, bound, rfl⟩

theorem mem_growSlots {m n : Nat} (x : Slot) : x ∈ growSlots m n ↔ Valid n x ∧ ¬ Valid m x := by
  have split : ∀ (p : Prop) [Decidable p] (l : List Slot), x ∈ (if p then l else []) ↔ p ∧ x ∈ l := by
    intro p _ l
    split <;> simp [*]
  simp only [growSlots, List.mem_append, split, mem_dataRange, mem_groups (Nat.le_max_right m 1047),
    List.mem_singleton]
  cases x with
  | data k => simp [Valid]; omega
  | ind1 => simp [Valid]
  | ind2 => simp [Valid]
  | second q => simp [Valid]; omega

/-- Step one has reached the end of `direct`. -/
theorem valid_direct {m n : Nat} (one : 23 < n) (x : Slot) :
    Valid (max m 23) x ↔ Valid m x ∨ x ∈ (List.range' m (min n 23 - m)).map data := by
  cases x <;> simp only [Valid, List.mem_map, List.mem_range'_1, data.injEq, reduceCtorEq,
    and_false, exists_false, or_false, exists_eq_right] <;> omega

/-- Step two has reached the end of `indirect1`. -/
theorem valid_indirect1 {m n : Nat} (two : 1047 < n) (x : Slot) :
    Valid (max m 1047) x ↔ Valid m x ∨
      x ∈ (List.range' m (min n 23 - m)).map data ++ ((if m ≤ 23 then [ind1] else []) ++
        (List.range' (max m 23) (min n 1047 - max m 23)).map data) := by
  have split : x ∈ (if m ≤ 23 then [ind1] else []) ↔ x = ind1 ∧ m ≤ 23 := by
    split <;> simp [*]
  simp only [List.mem_append, mem_dataRange, split]
  cases x <;> simp [Valid] <;> omega

/-- With enough free blocks `increase` succeeds and allocates `growSlots`. -/
theorem run_increase {m n : Nat} (map : BlockMap bm d s.blocks (Valid m))
    (segment : bm.Segment s.count) (le : m ≤ n) (high : n ≤ 1048576)
    (enough : (growSlots m n).length ≤ (bm.freeIds s.blocks).length) :
    ∃ d' s', (d.increase m n bm).run s = ((.kSuccess, d'), s') ∧
      Grown bm (Valid m) (growSlots m n) d s d' s' := by
  simp only [growSlots, List.length_append, List.length_map, List.length_range'] at enough
  obtain ⟨d₁, s₁, run₁, grown₁⟩ := run_allocDirect map segment (n := min n 23 - m) (by omega) (by omega)
  have free₁ : (bm.freeIds s.blocks).length = min n 23 - m + (bm.freeIds s₁.blocks).length := by
    rw [grown₁.takes, List.length_append, List.length_map, List.length_map, List.length_range']
  have segment₁ : bm.Segment s₁.count := grown₁.touches.count ▸ segment
  by_cases one : 23 < n
  · have same₁ := valid_direct (m := m) one
    have map₁ := (grown₁.map map ((closed_valid _).congr fun x => (same₁ x).symm)).congr same₁
    simp only [one, if_true, List.length_append, List.length_map, List.length_range'] at enough
    have lengthOne : (if m ≤ 23 then [ind1] else []).length = if m ≤ 23 then 1 else 0 := by
      split <;> rfl
    obtain ⟨d₂, s₂, run₂, grown₂⟩ := run_increaseIndirect1 (n := n) map₁ segment₁ (by omega)
    have grown₁₂ := grown₁.trans (grown₂.congr fun x => (same₁ x).symm)
    by_cases two : 1047 < n
    · have same₂ := valid_indirect1 (m := m) two
      have map₂ := (grown₁₂.map map ((closed_valid _).congr fun x => (same₂ x).symm)).congr same₂
      have segment₂ : bm.Segment s₂.count := grown₁₂.touches.count ▸ segment
      have free₂ : (bm.freeIds s₁.blocks).length = (if m ≤ 23 then 1 else 0) +
          (min n 1047 - max m 23) + (bm.freeIds s₂.blocks).length := by
        rw [grown₂.takes, List.length_append, List.length_map, List.length_append, lengthOne,
          List.length_map, List.length_range']
      have lengthTwo : (if m ≤ 1047 then [ind2] else []).length = if m ≤ 1047 then 1 else 0 := by
        split <;> rfl
      simp only [two, if_true, List.length_append, lengthTwo] at enough
      obtain ⟨d₃, s₃, run₃, grown₃⟩ :=
        run_increaseIndirect2 (n := n) map₂ segment₂ high (by omega) (by omega)
      refine ⟨d₃, s₃, ?_, ?_⟩
      · simp only [DiskInode.increase, DevProg.run_bind, run₁, one, if_true, run₂, two, run₃]
      · simp only [growSlots, one, if_true, two, List.append_assoc]
        have grown := grown₁₂.trans (grown₃.congr fun x => (same₂ x).symm)
        simpa only [List.append_assoc] using grown
    · refine ⟨d₂, s₂, ?_, ?_⟩
      · simp only [DiskInode.increase, DevProg.run_bind, run₁, one, if_true, run₂, two, if_false,
          DevProg.run_pure]
      · simp only [growSlots, one, if_true, two, if_false, List.append_nil]
        exact grown₁₂
  · have two : ¬ 1047 < n := by omega
    refine ⟨d₁, s₁, ?_, ?_⟩
    · simp only [DiskInode.increase, DevProg.run_bind, run₁, one, two, if_false, DevProg.run_pure]
    · simp only [growSlots, one, two, if_false, List.append_nil]
      exact grown₁

end

end Sbfs
