import Sbfs.Entries

/-! # Growing without enough space

A directory grows by one block at a time.  If the blocks that this takes are not there, the
growth fails half way: some of them have been allocated, and index blocks may have been
written, but the inode as the device still has it is what it was (`Dropped`). -/

namespace Sbfs

open Slot

section

variable {bm : Bitmap} {V : Slot → Prop} {d d' : DiskInode} {s s' : Disk} {m i newSize : Nat}

/-! ## One block -/

/-- The loop over `direct` and the loop over the entries of `indirect1`, without a free block. -/
theorem run_allocEach_full {α : Type} (store : α → Nat → Nat → α) (segment : bm.Segment s.count)
    (free : bm.freeIds s.blocks = []) (i : Nat) (a : α) :
    (DiskInode.allocEach bm store 1 i a).run s = ((.kFail, a), s) := by
  simp only [DiskInode.allocEach, DevProg.run_bind, Bitmap.run_alloc_full segment.toFits free, if_true,
    DevProg.run_pure]

theorem run_appendEntry_full (segment : bm.Segment s.count) (free : bm.freeIds s.blocks = []) (target k : Nat) :
    (DiskInode.appendEntry bm target k).run s = (.kFail, s) := by
  simp only [DiskInode.appendEntry, DevProg.run_bind, DevProg.run_readBlk]
  by_cases onDevice : target < s.count
  · simp only [onDevice, if_true, DevProg.run_bind, Bitmap.run_alloc_full segment.toFits free, DevProg.run_pure]
  · simp only [onDevice, if_false, DevProg.run_pure]

/-- The blocks that are free after a growth, counted. -/
theorem Grown.free_length {N : List Slot} (grown : Grown bm V N d s d' s') :
    N.length + (bm.freeIds s'.blocks).length = (bm.freeIds s.blocks).length := by
  rw [grown.takes, List.length_append, List.length_map]

theorem run_growIndirect2_short (map : BlockMap bm d s.blocks fun x => x = ind2 ∨ Valid i x)
    (segment : bm.Segment s.count) (low : 1047 ≤ i) (high : i < 1048576)
    (short : (bm.freeIds s.blocks).length < (if (i - 1047) % 1024 = 0 then 1 else 0) + 1) (n : Nat) :
    ∃ s' N, (DiskInode.growIndirect2 bm d.indirect2.toNat (n + 1) i (((i : Int) - 1048) / 1024)
        (s.blocks d.indirect2.toNat)).run s = (.kFail, s') ∧
      Grown bm (fun x => x = ind2 ∨ Valid i x) N d s d s' ∧ bm.freeIds s'.blocks = [] ∧
      (bm.freeIds s.blocks = [] → N = []) := by
  by_cases enough : (if (i - 1047) % 1024 = 0 then 1 else 0) ≤ (bm.freeIds s.blocks).length
  · -- the second-level block is there, but the data block is not
    obtain ⟨s₁, run, grown⟩ := run_secondLevel map segment low high enough
    have count := grown.free_length
    have free : bm.freeIds s₁.blocks = [] := by
      rw [← List.length_eq_zero_iff]
      by_cases first : (i - 1047) % 1024 = 0
      · simp only [first, if_true, List.length_singleton] at count short
        omega
      · simp only [first, if_false, List.length_nil] at count short
        omega
    refine ⟨s₁, _, ?_, grown, free, fun none => ?_⟩
    · simp only [DiskInode.growIndirect2, DevProg.run_bind, run,
        run_appendEntry_full (grown.touches.count ▸ segment) free, DevProg.run_pure]
    · rw [none, List.length_nil] at enough
      split at enough
      · cases enough
      · rename_i other
        rw [if_neg other]
  · have first : (i - 1047) % 1024 = 0 := by
      by_contra other
      rw [if_neg other] at enough
      omega
    have above : ((i : Int) - 1048) / 1024 < ((i - 1047) / 1024 : Nat) := by omega
    rw [if_pos first] at enough
    have free : bm.freeIds s.blocks = [] := by
      rw [← List.length_eq_zero_iff]
      omega
    refine ⟨s, [], ?_, .refl map, free, fun _ => rfl⟩
    simp only [DiskInode.growIndirect2, DiskInode.secondLevel, above, if_true, DevProg.run_bind,
      Bitmap.run_alloc_full segment.toFits free, DevProg.run_pure]

theorem run_fillIndirect2_short (map : BlockMap bm d s.blocks fun x => x = ind2 ∨ Valid m x)
    (segment : bm.Segment s.count) (low : 1047 ≤ m) (high : m < 1048576)
    (short : (bm.freeIds s.blocks).length < (if (m - 1047) % 1024 = 0 then 1 else 0) + 1) :
    ∃ s' N, (d.fillIndirect2 m (m + 1) bm).run s = ((.kFail, d), s') ∧
      Grown bm (fun x => x = ind2 ∨ Valid m x) N d s d s' := by
  have onDevice : d.indirect2.toNat < s.count :=
    (segment.bound (map.used ind2 (.inl rfl)).1).2.1
  obtain ⟨s', N, run, grown, -⟩ := run_growIndirect2_short map segment low high short 0
  refine ⟨s', N, ?_, grown⟩
  simp only [DiskInode.fillIndirect2, DevProg.run_bind, DevProg.run_readBlk_of_lt onDevice, blkLimit_eq,
    Nat.max_eq_left low, show m + 1 - m = 1 by omega, run, DevProg.run_pure]

/-- What a failed growth leaves on the device; the inode that it returns is dropped. -/
def Stuck (bm : Bitmap) (V : Slot → Prop) (d : DiskInode) (s : Disk) (s' : Disk) : Prop :=
  ∃ N d', Grown bm V N d s d' s'

theorem run_increaseIndirect2_short (map : BlockMap bm d s.blocks (Valid m))
    (segment : bm.Segment s.count) (low : 1047 ≤ m) (high : m < 1048576)
    (short : (bm.freeIds s.blocks).length <
      (if m ≤ 1047 then 1 else 0) + ((if (m - 1047) % 1024 = 0 then 1 else 0) + 1)) :
    ∃ d' s', (d.increaseIndirect2 m (m + 1) bm).run s = ((.kFail, d'), s') ∧ Stuck bm (Valid m) d s s' := by
  by_cases small : m ≤ 1047
  · have start : m = 1047 := by omega
    subst start
    have zero : d.indirect2 = 0 := map.no2 (by simp [Valid])
    by_cases none : bm.freeIds s.blocks = []
    · refine ⟨{ d with indirect2 := UInt32.ofNat kFailId }, s, ?_, [], d, .refl map⟩
      simp only [DiskInode.increaseIndirect2, zero, if_true, DevProg.run_bind,
        Bitmap.run_alloc_full segment.toFits none, DevProg.run_pure]
    · -- the index block gets the last free blocks, and the group fails
      have enough := List.length_pos_iff.mpr none
      obtain ⟨id, s₁, run, alloced⟩ := run_alloc segment enough
      have step := grown_ind2 map segment alloced (Nat.le_refl 1047)
      have same : ∀ x, (x = ind2 ∨ Valid 1047 x) ↔ Valid 1047 x ∨ x ∈ [ind2] := by
        intro x
        rw [List.mem_singleton, or_comm]
      have map₁ := (step.map map ((closed_with rfl 1047).congr fun x => (same x).symm)).congr same
      have count := step.free_length
      simp only [List.length_singleton, Nat.le_refl, Nat.sub_self, Nat.zero_mod, if_true] at count short
      obtain ⟨s', N, rest, grown⟩ := run_fillIndirect2_short map₁ (alloced.segment segment) (Nat.le_refl _)
        (by omega) (by simp only [Nat.sub_self, Nat.zero_mod, if_true]; omega)
      refine ⟨{ d with indirect2 := UInt32.ofNat id }, s', ?_, _, _,
        step.trans (grown.congr fun x => (same x).symm)⟩
      have ne := alloced.ne_kFail segment
      simp only [DiskInode.increaseIndirect2, zero, if_true, DevProg.run_bind, run, ne, if_false, rest]
  · have present : Valid m ind2 := by
      simp only [Valid]
      omega
    have same : ∀ x, (x = ind2 ∨ Valid m x) ↔ Valid m x := by
      intro x
      constructor
      · rintro (rfl | valid)
        · exact present
        · exact valid
      · exact .inr
    have nonzero : ¬ d.indirect2 = 0 := by
      intro zero
      have := segment.bound (map.used ind2 present).1
      simp [DiskInode.slotId, zero] at this
    simp only [small, if_false, Nat.zero_add] at short
    obtain ⟨s', N, rest, grown⟩ := run_fillIndirect2_short (map.congr same) segment low high short
    refine ⟨d, s', ?_, N, d, grown.congr fun x => (same x).symm⟩
    simp only [DiskInode.increaseIndirect2, nonzero, if_false, rest]

theorem run_fillIndirect1_full (segment : bm.Segment s.count) (onDevice : d.indirect1.toNat < s.count)
    (free : bm.freeIds s.blocks = []) (low : 23 ≤ m) (high : m < 1047) :
    (d.fillIndirect1 m (m + 1) bm).run s = ((.kFail, d), s) := by
  have one : min (m + 1) 1047 - max m 23 = 1 := by omega
  simp only [DiskInode.fillIndirect1, DevProg.run_bind, DevProg.run_readBlk_of_lt onDevice, one,
    run_allocEach_full _ segment free, DevProg.run_pure]

/-- Step two of `increase`, when the block is one of the entries of `indirect1`. -/
theorem run_increaseIndirect1_short (map : BlockMap bm d s.blocks (Valid m)) (segment : bm.Segment s.count)
    (low : 23 ≤ m) (high : m < 1047)
    (short : (bm.freeIds s.blocks).length < (if m ≤ 23 then 1 else 0) + 1) :
    ∃ d' s', (d.increaseIndirect1 m (m + 1) bm).run s = ((.kFail, d'), s') ∧ Stuck bm (Valid m) d s s' := by
  by_cases small : m ≤ 23
  · have start : m = 23 := by omega
    subst start
    have zero : d.indirect1 = 0 := map.no1 (by simp [Valid])
    by_cases none : bm.freeIds s.blocks = []
    · refine ⟨{ d with indirect1 := UInt32.ofNat kFailId }, s, ?_, [], d, .refl map⟩
      simp only [DiskInode.increaseIndirect1, zero, if_true, DevProg.run_bind,
        Bitmap.run_alloc_full segment.toFits none, DevProg.run_pure]
    · obtain ⟨id, s₁, run, alloced⟩ := run_alloc segment (List.length_pos_iff.mpr none)
      have step := grown_ind1 map segment alloced (Nat.le_refl 23)
      have count := step.free_length
      simp only [List.length_singleton, Nat.le_refl, if_true] at count short
      have free : bm.freeIds s₁.blocks = [] := by
        rw [← List.length_eq_zero_iff]
        omega
      have onDevice := (segment.bound alloced.inSegment).2.1
      have pointer : ({ d with indirect1 := UInt32.ofNat id } : DiskInode).indirect1.toNat = id := by
        have := segment.bound alloced.inSegment
        simp [Nat.mod_eq_of_lt (show id < 4294967296 by omega)]
      have rest := run_fillIndirect1_full (m := 23) (d := { d with indirect1 := UInt32.ofNat id })
        (alloced.segment segment) (by rw [pointer, alloced.touches.count]; exact onDevice) free (by omega) (by omega)
      refine ⟨{ d with indirect1 := UInt32.ofNat id }, s₁, ?_, _, _, step⟩
      have ne := alloced.ne_kFail segment
      simp only [DiskInode.increaseIndirect1, zero, if_true, DevProg.run_bind, run, ne, if_false, rest]
  · have present : Valid m ind1 := by
      simp only [Valid]
      omega
    have bound := segment.bound (map.used ind1 present).1
    have nonzero : ¬ d.indirect1 = 0 := by
      intro zero
      simp [DiskInode.slotId, zero] at bound
    simp only [small, if_false] at short
    have free : bm.freeIds s.blocks = [] := by
      rw [← List.length_eq_zero_iff]
      omega
    refine ⟨d, s, ?_, [], d, .refl map⟩
    simp only [DiskInode.increaseIndirect1, nonzero, if_false,
      run_fillIndirect1_full segment bound.2.1 free low high]

theorem growSlots_one {m : Nat} :
    (growSlots m (m + 1)).length = (if m < 1047 then (if m = 23 then 2 else 1)
      else (if m = 1047 then 1 else 0) + ((if (m - 1047) % 1024 = 0 then 1 else 0) + 1)) := by
  have optional : ∀ (p : Prop) [Decidable p] (x : Slot), (if p then [x] else []).length = if p then 1 else 0 := by
    intro p _ x
    split <;> rfl
  by_cases direct : m < 23
  · simp only [growSlots, show ¬ 23 < m + 1 by omega, show ¬ 1047 < m + 1 by omega, show m < 1047 by omega,
      show ¬ m = 23 by omega, if_true, if_false, List.append_nil, List.length_map, List.length_range']
    omega
  by_cases one : m < 1047
  · simp only [growSlots, show 23 < m + 1 by omega, show ¬ 1047 < m + 1 by omega, one, if_true, if_false,
      List.append_nil, List.length_append, List.length_map, List.length_range', optional]
    by_cases first : m = 23
    · subst first
      simp only [Nat.le_refl, if_true]
      omega
    · simp only [show ¬ m ≤ 23 by omega, first, if_false]
      omega
  · simp only [growSlots, show 23 < m + 1 by omega, show 1047 < m + 1 by omega, one, show ¬ m ≤ 23 by omega,
      if_true, if_false, show max m 1047 = m by omega, show m + 1 - m = 1 by omega, List.range'_one,
      List.flatMap_singleton, List.length_append, List.length_map, List.length_range', optional,
      groupSlots_length, List.length_nil]
    by_cases first : m = 1047
    · subst first
      simp only [Nat.le_refl, if_true]
      omega
    · simp only [show ¬ m ≤ 1047 by omega, first, if_false]
      omega

/-- Growing by one block without enough free ones fails, and nothing that was there changes. -/
theorem run_increase_short (map : BlockMap bm d s.blocks (Valid m)) (segment : bm.Segment s.count)
    (high : m < 1048576) (short : (bm.freeIds s.blocks).length < (growSlots m (m + 1)).length) :
    ∃ d' s', (d.increase m (m + 1) bm).run s = ((.kFail, d'), s') ∧ Stuck bm (Valid m) d s s' := by
  rw [growSlots_one] at short
  by_cases direct : m < 23
  · -- one of the direct blocks
    have free : bm.freeIds s.blocks = [] := by
      rw [← List.length_eq_zero_iff]
      rw [if_pos (by omega), if_neg (by omega)] at short
      omega
    refine ⟨d, s, ?_, [], d, .refl map⟩
    simp only [DiskInode.increase, DevProg.run_bind, show min (m + 1) 23 - m = 1 by omega,
      run_allocEach_full _ segment free, DevProg.run_pure]
  have none : (DiskInode.allocEach bm DiskInode.setDirect (min (m + 1) 23 - m) m d).run s =
      ((.kSuccess, d), s) := by
    rw [show min (m + 1) 23 - m = 0 by omega]
    rfl
  by_cases one : m < 1047
  · rw [if_pos one] at short
    obtain ⟨d', s', run, stuck⟩ := run_increaseIndirect1_short map segment (by omega) one (by
      split at short
      · rw [if_pos (by omega)]
        omega
      · rw [if_neg (by omega)]
        omega)
    refine ⟨d', s', ?_, stuck⟩
    simp only [DiskInode.increase, DevProg.run_bind, none, show 23 < m + 1 by omega, if_true, run, DevProg.run_pure]
  · -- step two rewrites `indirect1` as it is
    rw [if_neg one] at short
    have start : max m 23 = m := by omega
    obtain ⟨d₁, s₁, run₁, grown₁⟩ := run_increaseIndirect1 (n := m + 1) (start.symm ▸ map) segment (by
      rw [if_neg (by omega)]
      omega)
    rw [if_neg (by omega), show min (m + 1) 1047 - max m 23 = 0 by omega, start] at grown₁
    have map₁ := (grown₁.map map ((closed_valid m).congr fun x => by simp)).congr (W := Valid m) fun x => by simp
    have count := grown₁.free_length
    obtain ⟨d', s', run, N, d'', grown⟩ := run_increaseIndirect2_short map₁ (grown₁.touches.count ▸ segment)
      (by omega) high (by
        simp only [List.range'_zero, List.map_nil, List.append_nil, List.length_nil] at count
        split at short
        · rw [if_pos (by omega)]
          omega
        · rw [if_neg (by omega)]
          omega)
    refine ⟨d', s', ?_, _, d'', grown₁.trans (grown.congr fun x => by simp)⟩
    simp only [DiskInode.increase, DevProg.run_bind, none, show 23 < m + 1 by omega, show 1047 < m + 1 by omega,
      if_true, run₁, run]

/-! ## The file on the device -/

/-- The file `d` is on `s'` what it is on `s`, although blocks have been allocated for it and
its index blocks may have been written. -/
structure Dropped (bm : Bitmap) (d : DiskInode) (s s' : Disk) : Prop where
  evolved : Evolved bm (fun _ => False) d s d s'
  ids : ∀ x, d.Owns x → d.slotId s'.blocks x = d.slotId s.blocks x
  bytes : ∀ i, i < d.size.toNat → d.byte s'.blocks i = d.byte s.blocks i

/-- An inode finds its blocks through the index blocks of one that has them in the same slots. -/
theorem slotId_of_keeps {D D' : Nat → Block} (closed : Closed V)
    (keeps : ∀ x, V x → d'.slotId D' x = d.slotId D x) (x : Slot) (valid : V x) :
    d.slotId D' x = d.slotId D x := by
  induction x using parent_induction with
  | step x ih =>
    cases h : x.parent with
    | none => exact DiskInode.slotId_root h
    | some p =>
      have above := closed x p h valid
      rw [DiskInode.slotId_child h, ih p h above, ← keeps p above, ← DiskInode.slotId_child h, keeps x valid]

/-- The larger inode is not saved after the step. -/
theorem Evolved.unsaved (evolved : Evolved bm (fun _ => False) d s d' s') (map : WellMapped bm d s.blocks)
    (larger : ∀ x, d.Owns x → d'.Owns x) (keeps : ∀ x, d.Owns x → d'.slotId s'.blocks x = d.slotId s.blocks x) :
    Evolved bm (fun _ => False) d s d s' ∧ ∀ x, d.Owns x → d.slotId s'.blocks x = d.slotId s.blocks x := by
  have ids := slotId_of_keeps map.closed keeps
  have same : ∀ b, d.OwnsBlock s'.blocks b ↔ d.OwnsBlock s.blocks b := Evolved.ownsBlock_iff rfl ids
  refine ⟨⟨⟨map.closed, fun x owns => ?_, fun x y ownsX ownsY eq => ?_, map.no1, map.no2⟩,
    evolved.keeps, fun b own _ => (same b).mp own, evolved.touches⟩, ids⟩
  · rw [ids x owns, ← keeps x owns]
    exact evolved.map.used x (larger x owns)
  · rw [ids x ownsX, ids y ownsY] at eq
    exact map.inj x y ownsX ownsY eq

/-- The larger inode is dropped after a step that leaves the bytes of the smaller one alone. -/
theorem Evolved.dropped (evolved : Evolved bm (fun _ => False) d s d' s') (map : WellMapped bm d s.blocks)
    (larger : ∀ x, d.Owns x → d'.Owns x) (keeps : ∀ x, d.Owns x → d'.slotId s'.blocks x = d.slotId s.blocks x)
    (bytes : ∀ i, i < d.size.toNat → d'.byte s'.blocks i = d.byte s.blocks i) : Dropped bm d s s' := by
  obtain ⟨unsaved, ids⟩ := evolved.unsaved map larger keeps
  refine ⟨unsaved, ids, fun i inside => ?_⟩
  have owns := DiskInode.owns_data inside
  rw [← bytes i inside, DiskInode.byte, DiskInode.byte, byteAt, byteAt, DiskInode.ids, DiskInode.ids,
    ids _ owns, keeps _ owns]

theorem Stuck.dropped {d₂ : DiskInode} (stuck : Stuck bm d.Owns d₂ s s') (map : WellMapped bm d s.blocks)
    (segment : bm.Segment s.count) (pointers : ∀ D, d₂.slotId D = d.slotId D) : Dropped bm d s s' := by
  obtain ⟨N, d', grown⟩ := stuck
  have keeps : ∀ x, d.Owns x → d'.slotId s'.blocks x = d.slotId s.blocks x := by
    intro x owns
    rw [grown.keeps x owns, pointers]
  have ids := slotId_of_keeps map.closed keeps
  have same : ∀ b, d.OwnsBlock s'.blocks b ↔ d.OwnsBlock s.blocks b := Evolved.ownsBlock_iff rfl ids
  have bits : ∀ b, bm.Used s.blocks b → bm.Used s'.blocks b := fun b used => (grown.used_iff b).mpr (.inl used)
  refine ⟨⟨⟨map.closed, fun x owns => ?_, fun x y ownsX ownsY eq => ?_, map.no1, map.no2⟩,
    fun b used _ => bits b used, fun b own _ => (same b).mp own, grown.touches.mono ?_⟩, ids, fun i inside => ?_⟩
  · rw [ids x owns]
    exact bits _ (map.used x owns)
  · rw [ids x ownsX, ids y ownsY] at eq
    exact map.inj x y ownsX ownsY eq
  · rintro b (holds | ⟨x, isIndex, member, rfl⟩)
    · exact .inl holds
    · cases member with
      | inl owns =>
        rw [keeps x owns]
        exact .inr (.inr ⟨(map.used x owns).1, fun _ => ⟨x, owns, rfl⟩⟩)
      | inr new =>
        have fresh := Bitmap.mem_freeIds.mp (grown.fresh new).1
        refine .inr (.inr ⟨fresh.1, fun used => ?_⟩)
        exact absurd used.2 (by rw [fresh.2]; decide)
  · have owns := DiskInode.owns_data inside
    refine DiskInode.byte_congr (ids _ owns) (grown.touches.blocks _ ?_)
    have used := map.used _ owns
    rintro (holds | ⟨x, isIndex, member, eq⟩)
    · exact segment.not_holds used.1 holds
    · -- a data block is none of the index blocks
      rw [DiskInode.ids] at eq
      cases member with
      | inl ownsX =>
        rw [keeps x ownsX] at eq
        rw [← map.inj _ x owns ownsX eq] at isIndex
        cases isIndex
      | inr new =>
        have fresh := Bitmap.mem_freeIds.mp (grown.fresh new).1
        rw [← eq, used.2] at fresh
        cases fresh.2

theorem Dropped.after_quiet {s₁ : Disk} (map : WellMapped bm d s.blocks)
    (quiet : Touches (fun _ => False) s s₁) (dropped : Dropped bm d s₁ s') : Dropped bm d s s' := by
  have blocks := quiet.quiet
  refine ⟨(Evolved.retimed map (.refl d) quiet).1.trans dropped.evolved, ?_, ?_⟩
  · rw [← blocks]
    exact dropped.ids
  · rw [← blocks]
    exact dropped.bytes

/-- Resizing to more blocks calls `increase` with an inode that has the same pointers. -/
theorem run_resize_more (size32 : newSize < 4294967296) (more : dataBlocks d.size.toNat < dataBlocks newSize)
    (bm : Bitmap) (inode : Option Position) (s : Disk) :
    ∃ (d₂ : DiskInode) (s₁ : Disk), (d.resize newSize bm inode).run s =
        (d₂.increase (dataBlocks d.size.toNat) (dataBlocks newSize) bm).run s₁ ∧
      (∀ D, d₂.slotId D = d.slotId D) ∧ dataBlocks newSize ≤ 1048576 ∧ Touches (fun _ => False) s s₁ := by
  obtain ⟨d₁, s₁, run₁, retimed, quiet⟩ := run_updateMeta d 7 s
  have total : ¬ DiskInode.totalBlocks d.size.toNat = DiskInode.totalBlocks newSize := fun eq => by
    have := totalBlocks_eq.mp eq
    omega
  have notLess : ¬ DiskInode.totalBlocks newSize < DiskInode.totalBlocks d.size.toNat := fun less => by
    have := totalBlocks_lt.mp less
    omega
  refine ⟨{ d₁ with size := UInt32.ofNat newSize }, s₁, ?_, ?_, dataBlocks_le size32, quiet⟩
  · simp only [DiskInode.resize, DevProg.run_bind, run₁, retimed.size, total, if_false, notLess]
  · exact slotId_pointers (by rw [retimed]) (by rw [retimed]) (by rw [retimed])

/-- Resizing by one block without enough free ones. -/
theorem run_resize_stuck (map : WellMapped bm d s.blocks) (segment : bm.Segment s.count)
    (size32 : newSize < 4294967296) (one : dataBlocks newSize = dataBlocks d.size.toNat + 1)
    (short : (bm.freeIds s.blocks).length < growth d newSize) :
    ∃ d' s', (d.resize newSize bm none).run s = ((.kFail, d'), s') ∧ Dropped bm d s s' := by
  have more : dataBlocks d.size.toNat < dataBlocks newSize := by omega
  obtain ⟨d₂, s₁, run₁, pointers, bound, quiet⟩ := run_resize_more size32 more bm none s
  have map₁ : WellMapped bm d s₁.blocks := quiet.quiet ▸ map
  have segment₁ : bm.Segment s₁.count := quiet.count ▸ segment
  rw [growth, one, ← quiet.quiet] at short
  rw [one] at run₁ bound
  obtain ⟨d', s', run, stuck⟩ := run_increase_short (map₁.of_ids (pointers s₁.blocks)) segment₁ bound short
  exact ⟨d', s', by rw [run₁, run], (stuck.dropped map₁ segment₁ pointers).after_quiet map quiet⟩

end

/-! ## The steps of `create` and `link` -/

section

variable {bm : Bitmap} {fs : SBFileSystem} {d d' : DiskInode} {s s' : Disk} {m k offset len : Nat} {buf : Mem}

theorem Overwrites.dropped (written : Overwrites bm (fun _ => False) offset len buf d s d' s')
    (map : WellMapped bm d s.blocks) (behind : d.size.toNat ≤ offset) : Dropped bm d s s' := by
  refine written.evolved.dropped map (fun x owns => ?_) written.keeps fun i inside =>
    written.old_byte inside (.inl (by omega))
  refine Valid.mono ?_ owns
  rw [written.size]
  simp only [dataBlocks]
  omega

/-- The outcome of adding entries to a directory that is saved later, or not at all. -/
structure Extended (bm : Bitmap) (m k : Nat) (buf : Mem) (ret : Ret) (d : DiskInode) (s : Disk)
    (d' : DiskInode) (s' : Disk) : Prop where
  dropped : Dropped bm d s s'
  written : ret = .kSuccess → Overwrites bm (fun _ => False) (256 * m) (256 * k) buf d s d' s'
  free : ret = .kSuccess →
    growth d (256 * (m + k)) + (bm.freeIds s'.blocks).length = (bm.freeIds s.blocks).length
  enough : growth d (256 * (m + k)) ≤ (bm.freeIds s.blocks).length → ret = .kSuccess

/-- If entries do not fit, they need one more block. -/
theorem blocks_of_short (aligned : d.size.toNat = 256 * m) (few : k ≤ 16)
    (short : (bm.freeIds s.blocks).length < growth d (256 * (m + k))) :
    dataBlocks (256 * (m + k)) = dataBlocks d.size.toNat + 1 := by
  by_contra other
  rw [growth_shrink (by simp only [dataBlocks] at other ⊢; omega)] at short
  omega

namespace Inode

theorem run_appendEntry_any (map : WellMapped fs.dataBitmap d s.blocks)
    (segment : fs.dataBitmap.Segment s.count) (failId : s.count ≤ kFailId) (aligned : d.size.toNat = 256 * m)
    (small : 256 * (m + 1) ≤ 2147483648) (name : Name) (inode : Nat) :
    ∃ ret d' s', (appendEntry fs d name inode).run s = ((ret, d'), s') ∧
      Extended fs.dataBitmap m 1 (dirEntry name inode) ret d s d' s' := by
  by_cases enough : growth d (256 * (m + 1)) ≤ (fs.dataBitmap.freeIds s.blocks).length
  · obtain ⟨d', s', run, written, free⟩ := run_appendEntry (W := fun _ => False) map segment failId aligned small
      enough name inode
    exact ⟨.kSuccess, d', s', run, written.dropped map (by omega), fun _ => written, fun _ => free, fun _ => rfl⟩
  · obtain ⟨d', s', run, dropped⟩ := run_resize_stuck map segment (show 256 * (m + 1) < 4294967296 by omega)
      (blocks_of_short aligned (by omega) (Nat.lt_of_not_le enough)) (Nat.lt_of_not_le enough)
    refine ⟨.kFail, d', s', ?_, ⟨dropped, fun h => (by cases h), fun h => (by cases h), fun h => absurd h enough⟩⟩
    simp only [appendEntry, show (d.size.toNat + 256) % 4294967296 = 256 * (m + 1) by omega, DevProg.run_bind,
      run, DevProg.run_pure]

theorem run_createDots_any (map : WellMapped fs.dataBitmap d s.blocks)
    (segment : fs.dataBitmap.Segment s.count) (failId : s.count ≤ kFailId) (empty : d.size.toNat = 0)
    (self parent : Nat) :
    ∃ ret d' s', (createDots fs d self parent).run s = ((ret, d'), s') ∧
      Extended fs.dataBitmap 0 2 (dotEntries self parent) ret d s d' s' := by
  by_cases enough : growth d 512 ≤ (fs.dataBitmap.freeIds s.blocks).length
  · obtain ⟨d', s', run, written, free⟩ := run_createDots (W := fun _ => False) map segment failId empty enough self
      parent
    exact ⟨.kSuccess, d', s', run, written.dropped map (by omega), fun _ => written, fun _ => free, fun _ => rfl⟩
  · obtain ⟨d', s', run, dropped⟩ := run_resize_stuck map segment (show 512 < 4294967296 by omega)
      (blocks_of_short (m := 0) (k := 2) empty (by omega) (Nat.lt_of_not_le enough)) (Nat.lt_of_not_le enough)
    refine ⟨.kFail, d', s', ?_, ⟨dropped, fun h => (by cases h), fun h => (by cases h), fun h => absurd h enough⟩⟩
    simp only [createDots, show (d.size.toNat + 512) % 4294967296 = 512 by omega, DevProg.run_bind,
      run, DevProg.run_pure]

end Inode

end

end Sbfs
