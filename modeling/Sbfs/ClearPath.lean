import Sbfs.BlockCounts

/-! # `clear` against `resize` to nothing

`clear` was written as the fast way to give all blocks of an inode back, and `resize` has a call
of it commented out.  It walks the same three levels as `decrease`, but it skips `indirect1` up
to 1024 data blocks, and it finds the second group behind the end of `indirect2`. -/

namespace Sbfs

open Slot

/-! ## Frees -/

/-- The bits of `ids` have been cleared, with one write request for each. -/
structure Cleared (bm : Bitmap) (ids : List Nat) (s s' : Disk) : Prop where
  touches : Touches bm.Holds s s'
  used : ∀ x, bm.Used s'.blocks x ↔ bm.Used s.blocks x ∧ x ∉ ids
  writes : s'.writes.length = s.writes.length + ids.length

section

variable {bm : Bitmap} {d : DiskInode} {s s₁ s' : Disk} {ids ids' : List Nat} {n : Nat}

theorem Cleared.nil (bm : Bitmap) (s : Disk) : Cleared bm [] s s :=
  ⟨.refl _ _, fun _ => by simp, rfl⟩

theorem Cleared.append (first : Cleared bm ids s s₁) (second : Cleared bm ids' s₁ s') :
    Cleared bm (ids ++ ids') s s' where
  touches := first.touches.trans second.touches
  used := fun x => by rw [second.used, first.used, List.mem_append, not_or, and_assoc]
  writes := by rw [second.writes, first.writes, List.length_append, Nat.add_assoc]

theorem Cleared.segment (cleared : Cleared bm ids s s') (segment : bm.Segment s.count) : bm.Segment s'.count :=
  cleared.touches.count ▸ segment

theorem Cleared.kept (cleared : Cleared bm ids s s') (segment : bm.Segment s.count) {b : Nat}
    (inside : bm.InSegment b) : s'.blocks b = s.blocks b :=
  cleared.touches.blocks b (segment.not_holds inside)

theorem yields_free (segment : bm.Segment s.count) {id : Nat} (inside : bm.InSegment id) :
    ∃ s', (bm.free id).Yields bm.Holds s .kSuccess s' ∧ Cleared bm [id] s s' := by
  have bound := segment.bound inside
  obtain ⟨s', run, touches, used⟩ := Bitmap.run_free_id segment.toFits inside (by omega)
  obtain ⟨lower, upper⟩ := inside
  obtain ⟨a, rfl⟩ := Nat.exists_eq_add_of_le lower
  have holds : bm.Holds (bm.startBlockId + a / 32768) := Bitmap.holds_of_lt (by omega)
  have onDevice := segment.onDevice
  have last := holds.2
  have target : bm.startBlockId + a / 32768 < s.count := by omega
  have small := segment.small
  have state : s' = bm.unmark s a := by
    rw [Bitmap.run_free segment.toFits (by omega) (by omega)] at run
    exact (congrArg Prod.snd run).symm
  refine ⟨s', ⟨run, ?_⟩, touches, fun x => by rw [used, List.mem_singleton], ?_⟩
  · have id : (bm.dataSegmentOffset + a + 4294967296 - bm.dataSegmentOffset) % 4294967296 = a := by omega
    have wrap : (bm.startBlockId + a / 32768) % 4294967296 = bm.startBlockId + a / 32768 :=
      Nat.mod_eq_of_lt (by omega)
    simp only [Bitmap.free, id, wrap, DevProg.reads_bind, DevProg.reads_readBlk,
      DevProg.run_readBlk_of_lt target, DevProg.reads_writeBlk, DevProg.run_writeBlk_of_lt _ target, if_true,
      DevProg.reads_pure, List.append_nil, List.mem_singleton]
    rintro b rfl
    exact holds
  · rw [state, Bitmap.unmark]
    simp only [Store.put, List.length_append, List.length_cons, List.length_nil]

/-! ## The loops -/

namespace DiskInode

theorem yields_clearDirect (segment : bm.Segment s.count) {c i : Nat} (few : i + c ≤ 23)
    (inside : ∀ k, i ≤ k → k < i + c → bm.InSegment (d.directAt k)) :
    ∃ d' s', (clearDirect bm c i d).Yields bm.Holds s (.kSuccess, d') s' ∧
      Cleared bm ((List.range' i c).map d.directAt) s s' ∧ d' = { d with direct := d'.direct } := by
  induction c generalizing i d s with
  | zero => exact ⟨d, s, .pure _ _ _, .nil _ _, rfl⟩
  | succ c ih =>
    obtain ⟨s₁, free, cleared⟩ := yields_free segment (inside i (Nat.le_refl _) (by omega))
    have later : ∀ k, i + 1 ≤ k → (d.setDirect i kFailId).directAt k = d.directAt k := fun k above => by
      rw [directAt_setDirect (by omega) (by decide), if_neg (by omega)]
    obtain ⟨d', s', rest, cleared', fields⟩ := ih (d := d.setDirect i kFailId) (cleared.segment segment)
      (show i + 1 + c ≤ 23 by omega) fun k above below => by
        rw [later k above]
        exact inside k (by omega) (by omega)
    refine ⟨d', s', free.bind rest, ?_, fields⟩
    rw [List.range'_succ, List.map_cons]
    have same : (List.range' (i + 1) c).map (d.setDirect i kFailId).directAt = (List.range' (i + 1) c).map d.directAt :=
      List.map_congr_left fun k member => later k (List.mem_range'_1.mp member).1
    rw [same] at cleared'
    exact cleared.append cleared'

theorem yields_clearEntries (segment : bm.Segment s.count) {p : Block} {c j : Nat}
    (inside : ∀ k, j ≤ k → k < j + c → bm.InSegment (entry p k)) :
    ∃ s', (clearEntries bm p c j).Yields bm.Holds s .kSuccess s' ∧
      Cleared bm ((List.range' j c).map (entry p)) s s' := by
  induction c generalizing j s with
  | zero => exact ⟨s, .pure _ _ _, .nil _ _⟩
  | succ c ih =>
    obtain ⟨s₁, free, cleared⟩ := yields_free segment (inside j (Nat.le_refl _) (by omega))
    obtain ⟨s', rest, cleared'⟩ := ih (j := j + 1) (cleared.segment segment) fun k above below =>
      inside k (by omega) (by omega)
    exact ⟨s', free.bind rest, by rw [List.range'_succ]; exact cleared.append cleared'⟩

/-- The entries of an index block, as the ids of the slots under it. -/
theorem entries_slots (D : Nat → Block) {p : Slot} {first c : Nat}
    (child : ∀ k, k < c → (data (first + k)).parent = some p ∧ (data (first + k)).index = k) :
    (List.range' 0 c).map (entry (D (d.slotId D p))) = ((List.range' first c).map data).map (d.slotId D) := by
  rw [← Nat.add_zero first, ← List.map_add_range', List.map_map, List.map_map]
  refine List.map_congr_left fun k member => ?_
  obtain ⟨parent, index⟩ := child k (by have := List.mem_range'_1.mp member; omega)
  simp only [Function.comp]
  rw [slotId_child parent, index]

theorem direct_slots (D : Nat → Block) {c : Nat} (few : c ≤ 23) :
    (List.range' 0 c).map d.directAt = ((List.range' 0 c).map data).map (d.slotId D) := by
  rw [List.map_map]
  refine List.map_congr_left fun k member => ?_
  have inside := List.mem_range'_1.mp member
  simp only [Function.comp, slotId]
  rw [if_pos (by omega)]

/-- What a run of `clear` may read. -/
def MayRead (bm : Bitmap) (d : DiskInode) (D : Nat → Block) (b : Nat) : Prop := bm.Holds b ∨ d.OwnsBlock D b

/-- The blocks that `clear` gives up under `indirect1`. -/
def clearSlots1 (n : Nat) : List Slot :=
  if 1024 < n then (List.range' 23 (min n 1047 - 23)).map data ++ [ind1] else []

/-- The blocks that `clear` gives up under `indirect2`, where there is one group. -/
def clearSlots2 (n : Nat) : List Slot :=
  if 1047 < n then (List.range' 1047 (n - 1047)).map data ++ [second 0] ++ [ind2] else []

/-- An index block is read, the data blocks under it are freed, and then it is. -/
theorem yields_clearUnder (map : WellMapped bm d s.blocks) (segment : bm.Segment s.count)
    (cleared : Cleared bm ids s s₁) (p : Slot) (first c : Nat) (owns : d.Owns p)
    (child : ∀ k, k < c → (data (first + k)).parent = some p ∧ (data (first + k)).index = k)
    (under : ∀ k, k < c → d.Owns (data (first + k))) :
    ∃ s₂ s', (DevProg.readBlk (d.slotId s.blocks p)).Yields (MayRead bm d s.blocks) s₁
        (some (s.blocks (d.slotId s.blocks p))) s₁ ∧
      (clearEntries bm (s.blocks (d.slotId s.blocks p)) c 0).Yields (MayRead bm d s.blocks) s₁ .kSuccess s₂ ∧
      (bm.free (d.slotId s.blocks p)).Yields (MayRead bm d s.blocks) s₂ .kSuccess s' ∧
      Cleared bm (((List.range' first c).map data ++ [p]).map (d.slotId s.blocks)) s₁ s' := by
  have inside := (map.used p owns).1
  have segment₁ := cleared.segment segment
  have entries := entries_slots (d := d) s.blocks child
  have read := DevProg.Yields.readBlk (R := MayRead bm d s.blocks)
    (show d.slotId s.blocks p < s₁.count from cleared.touches.count ▸ (segment.bound inside).2.1) (.inr ⟨p, owns, rfl⟩)
  rw [cleared.kept segment inside] at read
  obtain ⟨s₂, loop, cleared₂⟩ := yields_clearEntries segment₁ (p := s.blocks (d.slotId s.blocks p)) (c := c) (j := 0)
    fun k _ below => by
      rw [Nat.zero_add] at below
      obtain ⟨parent, index⟩ := child k below
      have data := (map.used _ (under k below)).1
      rwa [slotId_child parent, index] at data
  obtain ⟨s', free, cleared₃⟩ := yields_free (cleared₂.segment segment₁) inside
  refine ⟨s₂, s', read, loop.mono fun _ => .inl, free.mono fun _ => .inl, ?_⟩
  rw [List.map_append, ← entries]
  exact cleared₂.append cleared₃

theorem yields_clearIndirect1 (d₁ : DiskInode) (map : WellMapped bm d s.blocks) (segment : bm.Segment s.count)
    (cleared : Cleared bm ids s s₁) (one : d₁.indirect1 = d.indirect1) :
    ∃ s', (clearIndirect1 d₁ (dataBlocks d.size.toNat) bm).Yields (MayRead bm d s.blocks) s₁ .kSuccess s' ∧
      Cleared bm ((clearSlots1 (dataBlocks d.size.toNat)).map (d.slotId s.blocks)) s₁ s' := by
  by_cases big : 1024 < dataBlocks d.size.toNat
  · have owns : d.Owns ind1 := by
      simp only [DiskInode.Owns, Valid]
      omega
    have bound := segment.bound (map.used ind1 owns).1
    have here : d.slotId s.blocks ind1 = d₁.indirect1.toNat := by rw [one, slotId]
    rw [here] at bound
    have some : d₁.indirect1 ≠ 0 := fun zero => by
      rw [zero] at bound
      exact absurd bound.1 (by decide)
    obtain ⟨s₂, s', read, loop, free, cleared'⟩ := yields_clearUnder map segment cleared ind1 23
      (min (dataBlocks d.size.toNat) 1047 - 23) owns
      (fun k below => by
        simp only [Slot.parent, Slot.index]
        rw [if_neg (by omega), if_pos (by omega), if_pos (by omega)]
        exact ⟨rfl, by omega⟩)
      fun k below => by
        simp only [DiskInode.Owns, Valid]
        omega
    rw [here] at read loop free
    refine ⟨s', ?_, by rw [clearSlots1, if_pos big]; exact cleared'⟩
    rw [clearIndirect1, if_pos ⟨some, big⟩]
    exact read.bind (loop.bind free)
  · refine ⟨s₁, ?_, ?_⟩
    · rw [clearIndirect1, if_neg fun both => big both.2]
      exact .pure _ _ _
    · rw [clearSlots1, if_neg big]
      exact .nil _ _

/-- The first round over the groups, and the rounds after it. -/
theorem yields_firstGroup (map : WellMapped bm d s.blocks) (segment : bm.Segment s.count)
    (cleared : Cleared bm ids s s₁) (behind : Nat → UInt32) (big : 1047 < dataBlocks d.size.toNat) (m : Nat) :
    ∃ s', Cleared bm (((List.range' 1047 (min 1024 (dataBlocks d.size.toNat - 1047))).map data ++ [second 0]).map
        (d.slotId s.blocks)) s₁ s' ∧
      (∀ a t, (clearGroups bm (s.blocks d.indirect2.toNat) behind (dataBlocks d.size.toNat - 1047) m 1024).Yields
          (MayRead bm d s.blocks) s' a t →
        (clearGroups bm (s.blocks d.indirect2.toNat) behind (dataBlocks d.size.toNat - 1047) (m + 1) 0).Yields
          (MayRead bm d s.blocks) s₁ a t) ∧
      ∀ b, b ∈ (clearGroups bm (s.blocks d.indirect2.toNat) behind (dataBlocks d.size.toNat - 1047) m 1024).reads s' →
        b ∈ (clearGroups bm (s.blocks d.indirect2.toNat) behind (dataBlocks d.size.toNat - 1047) (m + 1) 0).reads s₁ := by
  obtain ⟨s₂, s', read, loop, free, cleared'⟩ := yields_clearUnder map segment cleared (second 0) 1047
    (min 1024 (dataBlocks d.size.toNat - 1047))
    (by simp only [DiskInode.Owns, Valid]; omega)
    (fun k below => by
      simp only [Slot.parent, Slot.index]
      rw [if_neg (by omega), if_neg (by omega), if_neg (by omega), show (1047 + k - 1047) / 1024 = 0 by omega]
      exact ⟨rfl, by omega⟩)
    fun k below => by
      simp only [DiskInode.Owns, Valid]
      omega
  have here : secondEntry (s.blocks d.indirect2.toNat) behind 0 = d.slotId s.blocks (second 0) := rfl
  refine ⟨s', cleared', fun a t rest => ?_, fun b later => ?_⟩
  · rw [clearGroups, here, Nat.sub_zero]
    exact read.bind (loop.bind (free.bind rest))
  · rw [clearGroups, here, Nat.sub_zero]
    exact read.reads_after (loop.reads_after (free.reads_after later))

theorem yields_readInd2 (d₁ : DiskInode) (map : WellMapped bm d s.blocks) (segment : bm.Segment s.count)
    (cleared : Cleared bm ids s s₁) (two : d₁.indirect2 = d.indirect2) (big : 1047 < dataBlocks d.size.toNat) :
    d₁.indirect2 ≠ 0 ∧ bm.InSegment d.indirect2.toNat ∧ (DevProg.readBlk d₁.indirect2.toNat).Yields
      (MayRead bm d s.blocks) s₁ (some (s.blocks d.indirect2.toNat)) s₁ := by
  have owns : d.Owns ind2 := by
    simp only [DiskInode.Owns, Valid]
    omega
  have inside := (map.used ind2 owns).1
  have bound := segment.bound inside
  have read := DevProg.Yields.readBlk (R := MayRead bm d s.blocks)
    (show d.slotId s.blocks ind2 < s₁.count from cleared.touches.count ▸ bound.2.1) (.inr ⟨ind2, owns, rfl⟩)
  rw [cleared.kept segment inside] at read
  simp only [slotId] at inside bound read
  rw [two]
  refine ⟨fun zero => ?_, inside, read⟩
  rw [zero] at bound
  exact absurd bound.1 (by decide)

theorem yields_clearIndirect2 (d₁ : DiskInode) (map : WellMapped bm d s.blocks) (segment : bm.Segment s.count)
    (cleared : Cleared bm ids s s₁) (two : d₁.indirect2 = d.indirect2) (behind : Nat → UInt32)
    (few : dataBlocks d.size.toNat ≤ 2071) :
    ∃ s', (clearIndirect2 d₁ (dataBlocks d.size.toNat) behind bm).Yields (MayRead bm d s.blocks) s₁ .kSuccess s' ∧
      Cleared bm ((clearSlots2 (dataBlocks d.size.toNat)).map (d.slotId s.blocks)) s₁ s' := by
  by_cases big : 1047 < dataBlocks d.size.toNat
  · obtain ⟨some, inside, read⟩ := yields_readInd2 d₁ map segment cleared two big
    obtain ⟨s₂, cleared₂, round, -⟩ := yields_firstGroup map segment cleared behind big 0
    obtain ⟨s', free, cleared₃⟩ := yields_free (cleared₂.segment (cleared.segment segment)) inside
    refine ⟨s', ?_, ?_⟩
    · rw [clearIndirect2, if_pos ⟨some, big⟩, show (dataBlocks d.size.toNat - 1047 + 1023) / 1024 = 0 + 1 by omega]
      rw [← two] at round free
      rw [← two] at read
      exact read.bind ((round .kSuccess s₂ (.pure _ _ _)).bind (free.mono fun _ => .inl))
    · rw [clearSlots2, if_pos big, List.map_append]
      rw [show min 1024 (dataBlocks d.size.toNat - 1047) = dataBlocks d.size.toNat - 1047 by omega] at cleared₂
      exact cleared₂.append cleared₃
  · refine ⟨s₁, ?_, ?_⟩
    · rw [clearIndirect2, if_neg fun both => big both.2]
      exact .pure _ _ _
    · rw [clearSlots2, if_neg big]
      exact .nil _ _

/-- The first two levels. -/
theorem yields_clearHead (map : WellMapped bm d s.blocks) (segment : bm.Segment s.count) :
    ∃ d₁ s₁ s₂, (clearDirect bm (min (dataBlocks d.size.toNat) 23) 0 d).Yields (MayRead bm d s.blocks) s
        (.kSuccess, d₁) s₁ ∧
      (clearIndirect1 d₁ (dataBlocks d.size.toNat) bm).Yields (MayRead bm d s.blocks) s₁ .kSuccess s₂ ∧
      d₁ = { d with direct := d₁.direct } ∧
      Cleared bm (((List.range' 0 (min (dataBlocks d.size.toNat) 23)).map data ++
        clearSlots1 (dataBlocks d.size.toNat)).map (d.slotId s.blocks)) s s₂ := by
  obtain ⟨d₁, s₁, first, cleared, fields⟩ := yields_clearDirect (d := d) segment
    (show 0 + min (dataBlocks d.size.toNat) 23 ≤ 23 by omega) fun k _ below => by
      have used := (map.used (data k) (by simp only [DiskInode.Owns, Valid]; omega)).1
      simp only [slotId] at used
      rwa [if_pos (by omega)] at used
  rw [direct_slots s.blocks (by omega)] at cleared
  obtain ⟨s₂, second, cleared₂⟩ := yields_clearIndirect1 d₁ map segment cleared (by rw [fields])
  refine ⟨d₁, s₁, s₂, first.mono fun _ => .inl, second, fields, ?_⟩
  rw [List.map_append]
  exact cleared.append cleared₂

/-- What `clear` frees, where it stays within `indirect2`. -/
def clearSlots (n : Nat) : List Slot :=
  (List.range' 0 (min n 23)).map data ++ clearSlots1 n ++ clearSlots2 n

theorem yields_clear (map : WellMapped bm d s.blocks) (segment : bm.Segment s.count) (behind : Nat → UInt32)
    (few : dataBlocks d.size.toNat ≤ 2071) :
    ∃ d' s', (d.clear behind bm).Yields (MayRead bm d s.blocks) s (.kSuccess, d') s' ∧
      Cleared bm ((clearSlots (dataBlocks d.size.toNat)).map (d.slotId s.blocks)) s s' := by
  obtain ⟨d₁, s₁, s₂, first, second, fields, cleared⟩ := yields_clearHead map segment
  obtain ⟨s', third, cleared'⟩ := yields_clearIndirect2 d₁ map segment cleared (by rw [fields]) behind few
  have size : d₁.size = d.size := by rw [fields]
  rw [← size] at second third
  refine ⟨d₁, s', first.bind (second.bind (third.bind (.pure _ _ _))), ?_⟩
  rw [clearSlots, List.map_append]
  exact cleared.append cleared'

/-- From the second group on `clear` reads what happens to lie behind `indirect2`. -/
theorem reads_clear_behind (map : WellMapped bm d s.blocks) (segment : bm.Segment s.count) (behind : Nat → UInt32)
    (many : 2071 < dataBlocks d.size.toNat) : (behind 1024).toNat ∈ (d.clear behind bm).reads s := by
  obtain ⟨d₁, s₁, s₂, first, second, fields, cleared⟩ := yields_clearHead map segment
  have size : d₁.size = d.size := by rw [fields]
  have big : 1047 < dataBlocks d.size.toNat := by omega
  obtain ⟨some, -, read⟩ := yields_readInd2 d₁ map segment cleared (by rw [fields]) big
  obtain ⟨m, rounds⟩ := Nat.exists_eq_add_of_le (show 2 ≤ (dataBlocks d.size.toNat - 1047 + 1023) / 1024 by omega)
  obtain ⟨s₃, -, -, later⟩ := yields_firstGroup map segment cleared behind big (m + 1)
  have next : (behind 1024).toNat ∈ (clearGroups bm (s.blocks d.indirect2.toNat) behind
      (dataBlocks d.size.toNat - 1047) (m + 1) 1024).reads s₃ := by
    rw [clearGroups, DevProg.reads_bind, DevProg.reads_readBlk]
    exact List.mem_append_left _ (List.mem_singleton.mpr rfl)
  have third : (behind 1024).toNat ∈ (clearIndirect2 d₁ (dataBlocks d.size.toNat) behind bm).reads s₂ := by
    rw [clearIndirect2, if_pos ⟨some, big⟩, rounds, Nat.add_comm 2 m]
    refine read.reads_after ?_
    rw [DevProg.reads_bind]
    exact List.mem_append_left _ (later _ next)
  rw [← size] at second third
  refine first.reads_after (second.reads_after ?_)
  rw [DevProg.reads_bind]
  exact List.mem_append_left _ third

end DiskInode

/-! ## The blocks that are given up -/

theorem mem_clearSlots1 {x : Slot} : x ∈ DiskInode.clearSlots1 n ↔
    1024 < n ∧ ((∃ k, x = data k ∧ 23 ≤ k ∧ k < min n 1047) ∨ x = ind1) := by
  rw [DiskInode.clearSlots1]
  split
  · rw [List.mem_append, mem_dataRange, List.mem_singleton, show 23 + (min n 1047 - 23) = min n 1047 by omega]
    simp [*]
  · simp [*]

theorem mem_clearSlots2 {x : Slot} : x ∈ DiskInode.clearSlots2 n ↔
    1047 < n ∧ ((∃ k, x = data k ∧ 1047 ≤ k ∧ k < n) ∨ x = second 0 ∨ x = ind2) := by
  rw [DiskInode.clearSlots2]
  split
  · rw [List.mem_append, List.mem_append, mem_dataRange, List.mem_singleton, List.mem_singleton,
      show 1047 + (n - 1047) = n by omega, or_assoc]
    simp [*]
  · simp [*]

theorem mem_clearSlots {x : Slot} (level : n ≤ 23 ∨ 1024 < n ∧ n ≤ 2071) :
    x ∈ DiskInode.clearSlots n ↔ Valid n x := by
  rw [DiskInode.clearSlots, List.mem_append, List.mem_append, mem_dataRange, mem_clearSlots1, mem_clearSlots2]
  cases x with
  | data k =>
    simp only [Valid, data.injEq, exists_eq_left', reduceCtorEq, or_false]
    omega
  | ind1 =>
    simp only [Valid, reduceCtorEq, false_and, exists_const, false_or, and_false, or_false, and_true]
    omega
  | ind2 => simp [Valid]
  | second q =>
    simp only [Valid, second.injEq, reduceCtorEq, false_and, exists_const, false_or, and_false, or_false]
    omega

theorem nodup_clearSlots (n : Nat) : (DiskInode.clearSlots n).Nodup := by
  have ranges : ∀ a c, ((List.range' a c).map data).Nodup := fun a c =>
    List.Nodup.map (fun _ _ same => data.inj same) List.nodup_range'
  have single : ∀ x : Slot, [x].Nodup := List.nodup_singleton
  have under1 : (DiskInode.clearSlots1 n).Nodup := by
    rw [DiskInode.clearSlots1]
    split
    · exact List.nodup_append'.mpr ⟨ranges _ _, single _, by simp⟩
    · exact List.nodup_nil
  have under2 : (DiskInode.clearSlots2 n).Nodup := by
    rw [DiskInode.clearSlots2]
    split
    · exact List.nodup_append'.mpr ⟨List.nodup_append'.mpr ⟨ranges _ _, single _, by simp⟩, single _, by simp⟩
    · exact List.nodup_nil
  refine List.nodup_append'.mpr ⟨List.nodup_append'.mpr ⟨ranges _ _, under1, fun x first second => ?_⟩, under2,
    fun x first second => ?_⟩
  · rw [mem_dataRange] at first
    rw [mem_clearSlots1] at second
    obtain ⟨k, rfl, -, below⟩ := first
    obtain ⟨-, ⟨k', same, above, -⟩ | same⟩ := second <;> cases same
    omega
  · rw [List.mem_append, mem_dataRange, mem_clearSlots1] at first
    rw [mem_clearSlots2] at second
    obtain ⟨-, ⟨k, rfl, above, -⟩ | rfl | rfl⟩ := second
    · obtain ⟨k', same, -, below⟩ | ⟨-, ⟨k', same, -, below⟩ | same⟩ := first <;> cases same <;> omega
    · simp at first
    · simp at first

theorem Cleared.frees (cleared : Cleared bm ids s s') (nodup : ids.Nodup)
    (used : ∀ id ∈ ids, bm.Used s.blocks id) :
    (bm.freeIds s'.blocks).length = (bm.freeIds s.blocks).length + ids.length := by
  rw [← List.length_append]
  have apart : (bm.freeIds s.blocks ++ ids).Nodup :=
    List.nodup_append'.mpr ⟨Bitmap.nodup_freeIds, nodup, fun id free member =>
      (Bitmap.used_iff.mp (used id member)).2 free⟩
  refine ((List.perm_ext_iff_of_nodup Bitmap.nodup_freeIds apart).mpr fun id => ?_).length_eq
  have after := cleared.used id
  rw [Bitmap.used_iff, Bitmap.used_iff] at after
  have inside : id ∈ bm.freeIds s'.blocks ∨ id ∈ bm.freeIds s.blocks → bm.InSegment id := by
    rintro (free | free) <;> exact (Bitmap.mem_freeIds.mp free).1
  have inside' : id ∈ ids → bm.InSegment id := fun member => (used id member).1
  rw [List.mem_append]
  tauto

/-! ## `clear` in the place of `resize` -/

/-- Every write request of the run has cleared a bit of its own. -/
def FreesOnce (bm : Bitmap) (s s' : Disk) : Prop :=
  ∃ ws, s'.writes = s.writes ++ ws ∧
    (bm.freeIds s'.blocks).length = (bm.freeIds s.blocks).length + ws.length

/-- `clear` could stand in for `resize` to nothing: it frees the blocks of the inode, each once,
and reads no others. -/
structure ClearsLikeResize (bm : Bitmap) (d : DiskInode) (behind : Nat → UInt32) (s : Disk) : Prop where
  all : ∀ b, bm.Used ((d.clear behind bm).run s).2.blocks b ↔ bm.Used s.blocks b ∧ ¬ d.OwnsBlock s.blocks b
  same : ∀ b, bm.Used ((d.clear behind bm).run s).2.blocks b ↔
    bm.Used ((d.resize 0 bm none).run s).2.blocks b
  once : FreesOnce bm s ((d.clear behind bm).run s).2
  reads : ∀ b ∈ (d.clear behind bm).reads s, bm.Holds b ∨ d.OwnsBlock s.blocks b

/-- `resize` to nothing frees all blocks. -/
theorem run_resize_zero (map : WellMapped bm d s.blocks) (segment : bm.Segment s.count) (b : Nat) :
    bm.Used ((d.resize 0 bm none).run s).2.blocks b ↔ bm.Used s.blocks b ∧ ¬ d.OwnsBlock s.blocks b := by
  obtain ⟨d', s', run, resized⟩ := run_resize map segment (show 0 < 4294967296 by decide)
    (by rw [growth_shrink (Nat.zero_le _)]; exact Nat.zero_le _) fun pos (some : none = some pos) => by cases some
  have nothing : ∀ x, ¬ d'.Owns x := fun x own => by
    rw [DiskInode.Owns, resized.size] at own
    cases x <;> simp [Valid, dataBlocks] at own
  rw [run, resized.used]
  constructor
  · rintro (⟨used, kept⟩ | ⟨x, own, -⟩)
    · refine ⟨used, ?_⟩
      rintro ⟨x, owns, same⟩
      exact kept x owns (nothing x) same
    · exact absurd own (nothing x)
  · rintro ⟨used, other⟩
    exact .inl ⟨used, fun x owns _ same => other ⟨x, owns, same⟩⟩

/-- With up to 1024 data blocks `indirect1` is not given up. -/
theorem clear_keeps_ind1 (map : WellMapped bm d s.blocks) (segment : bm.Segment s.count) (behind : Nat → UInt32)
    (one : 23 < dataBlocks d.size.toNat) (few : dataBlocks d.size.toNat ≤ 1024) :
    d.OwnsBlock s.blocks (d.slotId s.blocks ind1) ∧
      bm.Used ((d.clear behind bm).run s).2.blocks (d.slotId s.blocks ind1) := by
  have owns : d.Owns ind1 := one
  refine ⟨⟨ind1, owns, rfl⟩, ?_⟩
  obtain ⟨d', s', clear, cleared⟩ := DiskInode.yields_clear map segment behind (by omega)
  rw [clear.run]
  refine (cleared.used _).mpr ⟨map.used ind1 owns, fun member => ?_⟩
  obtain ⟨x, slot, same⟩ := List.mem_map.mp member
  rw [DiskInode.clearSlots, List.mem_append, List.mem_append, mem_dataRange, mem_clearSlots1, mem_clearSlots2] at slot
  obtain (⟨k, rfl, -, below⟩ | under) | under := slot
  · cases map.inj (data k) ind1 (by simp only [DiskInode.Owns, Valid]; omega) owns same
  · omega
  · omega

/-- `clear` does what `resize` to nothing does, whatever lies behind its buffer, exactly if the
inode has no `indirect1`, or more than 1024 data blocks but at most one group under `indirect2`. -/
theorem clears_like_resize_iff (map : WellMapped bm d s.blocks) (segment : bm.Segment s.count) :
    (∀ behind, ClearsLikeResize bm d behind s) ↔ dataBlocks d.size.toNat ≤ 23 ∨
      1024 < dataBlocks d.size.toNat ∧ dataBlocks d.size.toNat ≤ 2071 := by
  constructor
  · intro alike
    by_cases few : dataBlocks d.size.toNat ≤ 2071
    · -- the block of `indirect1` stays allocated
      by_contra level
      obtain ⟨own, used⟩ := clear_keeps_ind1 map segment (fun _ => 0) (by omega) (by omega)
      exact (((alike fun _ => 0).all _).mp used).2 own
    · -- the second group is looked up in memory that is not the inode's
      have read := (alike fun _ => 0).reads 0 (DiskInode.reads_clear_behind map segment (fun _ => 0) (by omega))
      cases read with
      | inl holds =>
        have := holds.1
        have := segment.high
        omega
      | inr own =>
        obtain ⟨x, owns, zero⟩ := own
        have := segment.bound (map.used x owns).1
        omega
  · intro level behind
    obtain ⟨d', s', clear, cleared⟩ := DiskInode.yields_clear map segment behind (by omega)
    -- `clear` frees every block of the inode, and none twice
    have members : ∀ b, b ∈ (DiskInode.clearSlots (dataBlocks d.size.toNat)).map (d.slotId s.blocks) ↔
        d.OwnsBlock s.blocks b := by
      intro b
      rw [List.mem_map]
      constructor
      · rintro ⟨x, slot, rfl⟩
        exact ⟨x, (mem_clearSlots level).mp slot, rfl⟩
      · rintro ⟨x, owns, rfl⟩
        exact ⟨x, (mem_clearSlots level).mpr owns, rfl⟩
    have all : ∀ b, bm.Used s'.blocks b ↔ bm.Used s.blocks b ∧ ¬ d.OwnsBlock s.blocks b := fun b => by
      rw [cleared.used, members]
    constructor
    case all =>
      rw [clear.run]
      exact all
    case same =>
      intro b
      rw [clear.run, run_resize_zero map segment]
      exact all b
    case once =>
      rw [clear.run]
      obtain ⟨ws, logged, -⟩ := cleared.touches.writes
      refine ⟨ws, logged, ?_⟩
      have count := cleared.writes
      rw [logged, List.length_append] at count
      rw [cleared.frees ?_ fun id member => ?_]
      · omega
      · refine (nodup_clearSlots _).map_on fun x slot y slot' same => ?_
        exact map.inj x y ((mem_clearSlots level).mp slot) ((mem_clearSlots level).mp slot') same
      · obtain ⟨x, slot, rfl⟩ := List.mem_map.mp member
        exact map.used x ((mem_clearSlots level).mp slot)
    case reads => exact clear.reads

end

/-- The file of 1049 blocks, with one group under `indirect2`. -/
theorem clears_like_resize_iff_deepFile :
    ClearsLikeResize Layout.default.formatted.dataBitmap deepFile (fun _ => 0) deepDisk :=
  (clears_like_resize_iff deepFile_mapped (Layout.default.segment deepDisk_device)).mpr
    (.inr ⟨by decide, by decide⟩) fun _ => 0

/-! ### A file of 24 blocks -/

theorem blankImage_room : growth emptyFile 98304 ≤
    (Layout.default.formatted.dataBitmap.freeIds blankImage.blocks).length := by
  have small : growth emptyFile 98304 = 25 := by decide
  rw [blankImage_free, small]
  decide

/-- On a file that has been grown to 24 blocks, `clear` leaves `indirect1` taken. -/
theorem clear_leaks :
    ¬ ∀ (bm : Bitmap) (d : DiskInode) (s : Disk), WellMapped bm d s.blocks → bm.Segment s.count →
      ∀ behind, ClearsLikeResize bm d behind s := by
  intro always
  have empty : emptyFile.Empty := ⟨rfl, rfl, rfl, rfl⟩
  have inv := empty.history (L := Layout.default) (s := blankImage) (by decide)
  obtain ⟨d', s', run, resized⟩ := run_resize inv.map inv.segment (by decide) blankImage_room
    fun pos (some : none = some pos) => by cases some
  have segment := resized.touches.count ▸ inv.segment
  obtain ⟨own, used⟩ := clear_keeps_ind1 resized.map segment (fun _ => 0) (by rw [resized.size]; decide)
    (by rw [resized.size]; decide)
  exact (((always _ d' s' resized.map segment fun _ => 0).all _).mp used).2 own

end Sbfs
