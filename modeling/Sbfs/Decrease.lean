import Sbfs.Increase

/-! # Shrinking an inode

`run_decrease`: `decrease` releases exactly the slots that the larger inode has and
the smaller one lacks.  When a group under `indirect2` survives, the loop writes that
group's index block to the block whose number is the number of the group; `Shrunk`
records this stray write among the blocks that a run may touch. -/

namespace Sbfs

open Slot

/-! ## Entries -/

namespace DiskInode

variable {α : Type} {get : α → Nat → Nat} {set : α → Nat → Nat → α} {bound : Nat}

/-- The pushed ids are those of the entries before the loop. -/
theorem dropEach_ids (get_set : ∀ a i v k, i < bound → v < 4294967296 →
      get (set a i v) k = if k = i then v else get a k)
    {n j : Nat} (a : α) (inside : n ≤ bound - j) :
    (dropEach get set n j a).1 = (List.range' j n).map fun k => int32 (get a k) := by
  induction n generalizing j a with
  | zero => rfl
  | succ n ih =>
    have rest := ih (j := j + 1) (set a j kFailId) (by omega)
    simp only [dropEach, rest, List.range'_succ, List.map_cons, List.cons.injEq, true_and]
    apply List.map_congr_left
    intro k member
    have above := (List.mem_range'_1.mp member).1
    rw [get_set a j kFailId k (by omega) (by decide), if_neg (by omega)]

theorem dropEach_get (get_set : ∀ a i v k, i < bound → v < 4294967296 →
      get (set a i v) k = if k = i then v else get a k)
    {n j : Nat} (a : α) (inside : n ≤ bound - j) {k : Nat} (out : k < j ∨ j + n ≤ k) :
    get (dropEach get set n j a).2 k = get a k := by
  induction n generalizing j a with
  | zero => rfl
  | succ n ih =>
    simp only [dropEach]
    rw [ih (set a j kFailId) (by omega) (by omega),
      get_set a j kFailId k (by omega) (by decide), if_neg (by omega)]

/-- The entry at which the loop starts is overwritten. -/
theorem dropEach_first (get_set : ∀ a i v k, i < bound → v < 4294967296 →
      get (set a i v) k = if k = i then v else get a k)
    {n j : Nat} (a : α) (inside : n ≤ bound - j) (some : 0 < n) : get (dropEach get set n j a).2 j = kFailId := by
  obtain ⟨n, rfl⟩ := Nat.exists_eq_add_of_lt some
  rw [Nat.zero_add] at inside ⊢
  simp only [dropEach]
  rw [dropEach_get get_set _ (by omega) (.inl (Nat.lt_succ_self j)), get_set a j kFailId j (by omega) (by decide),
    if_pos rfl]

theorem dropEach_direct (d : DiskInode) (n j : Nat) :
    (dropEach directAt setDirect n j d).2 =
      { d with direct := (dropEach directAt setDirect n j d).2.direct } := by
  induction n generalizing j d with
  | zero => rfl
  | succ n ih =>
    simp only [dropEach]
    rw [ih]
    rfl

theorem direct_get_set (d : DiskInode) (i v k : Nat) (inside : i < 23) (small : v < 4294967296) :
    directAt (setDirect d i v) k = if k = i then v else directAt d k :=
  directAt_setDirect inside small

theorem entry_get_set (p : Block) (i v k : Nat) (inside : i < 1024) (small : v < 4294967296) :
    entry (setEntry p i v) k = if k = i then v else entry p k :=
  entry_setEntry p inside small

end DiskInode

/-! ## The slots to give up -/

/-- The slots that the loops of step three give up with group `i`. -/
def dropGroup (m n i : Nat) : List Slot :=
  (List.range' (max n (1047 + 1024 * i))
    (min m (1047 + 1024 * (i + 1)) - max n (1047 + 1024 * i))).map data ++
  (if n ≤ 1047 + 1024 * i then [second i] else [])

/-- The groups that the loops of step three visit. -/
def dropGroups (m n : Nat) : List Slot :=
  (List.range' ((n - 1048) / 1024) ((m - 1048) / 1024 + 1 - (n - 1048) / 1024)).flatMap
    (dropGroup m n)

/-- The slots that `decrease` gives up to go from `m` to `n` data blocks, in the order in
which it pushes them. -/
def dropSlots (m n : Nat) : List Slot :=
  (List.range' n (min m 23 - n)).map data ++
  (if 23 < m then (List.range' (max n 23) (min m 1047 - max n 23)).map data ++
    (if n ≤ 23 then [ind1] else []) else []) ++
  (if 1047 < m then dropGroups m n ++ (if n ≤ 1047 then [ind2] else []) else [])

theorem mem_dropGroups {m n : Nat} (big : 1047 < m) (less : n < m) (x : Slot) :
    x ∈ dropGroups m n ↔ (Valid m x ∧ ¬ Valid n x) ∧
      ((∃ k, 1047 ≤ k ∧ x = data k) ∨ ∃ q, x = second q) := by
  have split : ∀ (p : Prop) [Decidable p] (l : List Slot), x ∈ (if p then l else []) ↔ p ∧ x ∈ l := by
    intro p _ l
    split <;> simp [*]
  simp only [dropGroups, List.mem_flatMap, List.mem_range'_1, dropGroup, List.mem_append,
    mem_dataRange, split, List.mem_singleton]
  constructor
  · rintro ⟨i, bound, ⟨k, rfl, lower, upper⟩ | ⟨whole, rfl⟩⟩
    · exact ⟨⟨by simp only [Valid]; omega, by simp only [Valid]; omega⟩, .inl ⟨k, by omega, rfl⟩⟩
    · exact ⟨⟨by simp only [Valid]; omega, by simp only [Valid]; omega⟩, .inr ⟨i, rfl⟩⟩
  · rintro ⟨⟨valid, gone⟩, ⟨k, low, rfl⟩ | ⟨q, rfl⟩⟩
    · simp only [Valid] at valid gone
      exact ⟨(k - 1047) / 1024, by omega, .inl ⟨k, rfl, by omega, by omega⟩⟩
    · simp only [Valid] at valid gone
      exact ⟨q, by omega, .inr ⟨by omega, rfl⟩⟩

theorem mem_dropSlots {m n : Nat} (less : n < m) (x : Slot) :
    x ∈ dropSlots m n ↔ Valid m x ∧ ¬ Valid n x := by
  have split : ∀ (p : Prop) [Decidable p] (l : List Slot), x ∈ (if p then l else []) ↔ p ∧ x ∈ l := by
    intro p _ l
    split <;> simp [*]
  have groups : (1047 < m ∧ x ∈ dropGroups m n) ↔ 1047 < m ∧ (Valid m x ∧ ¬ Valid n x) ∧
      ((∃ k, 1047 ≤ k ∧ x = data k) ∨ ∃ q, x = second q) :=
    and_congr_right fun big => mem_dropGroups big less x
  simp only [dropSlots, List.mem_append, split, mem_dataRange, List.mem_singleton, and_or_left,
    groups]
  cases x with
  | data k => simp [Valid]; omega
  | ind1 => simp [Valid]
  | ind2 => simp [Valid]
  | second q => simp [Valid]; omega

/-! ## The loops -/

section

variable {bm : Bitmap} {d d' : DiskInode} {s s' : Disk} {D : Nat → Block} {m n : Nat}

/-- The id of a slot as `bitmap_to_free` holds it. -/
def pushed (d : DiskInode) (D : Nat → Block) (x : Slot) : Int := int32 (d.slotId D x)

/-- The entries of a group as the loops push them. -/
theorem group_entries (d : DiskInode) (D : Nat → Block) (q j c : Nat) (fits : c ≤ 1024 - j) :
    ((List.range' j c).map fun k => int32 (entry (D (d.slotId D (second q))) k)) =
      ((List.range' (1047 + 1024 * q + j) c).map data).map (pushed d D) := by
  rw [List.map_map, ← List.map_add_range', List.map_map]
  apply List.map_congr_left
  intro k member
  obtain ⟨lower, upper⟩ := List.mem_range'_1.mp member
  have parent : (data (1047 + 1024 * q + k)).parent = some (second q) := by
    simp only [Slot.parent]
    rw [if_neg (by omega), if_neg (by omega), show (1047 + 1024 * q + k - 1047) / 1024 = q by omega]
  have index : (data (1047 + 1024 * q + k)).index = k := by
    simp only [Slot.index]
    rw [if_neg (by omega)]
    omega
  simp only [Function.comp, pushed]
  rw [DiskInode.slotId_child parent, index]

theorem run_freeGroups {c i : Nat} (big : 1047 < m) (small : n ≤ 1047)
    (last : i + c = (m - 1048) / 1024 + 1)
    (onDevice : ∀ q, Valid m (second q) → d.slotId s.blocks (second q) < s.count) :
    (DiskInode.freeGroups (s.blocks d.indirect2.toNat) ((m - 1048) / 1024, (m - 1048) % 1024) c i).run
      s = ((.kSuccess, ((List.range' i c).flatMap (dropGroup m n)).map (pushed d s.blocks)), s) := by
  induction c generalizing i with
  | zero => rfl
  | succ c ih =>
    have here : d.slotId s.blocks (second i) < s.count := by
      refine onDevice i ?_
      simp only [Valid]
      omega
    have read : (DevProg.readBlk (entry (s.blocks d.indirect2.toNat) i)).run s =
        (some (s.blocks (d.slotId s.blocks (second i))), s) := DevProg.run_readBlk_of_lt here
    have group : (dropGroup m n i).map (pushed d s.blocks) =
        (if i ≠ (m - 1048) / 1024 then
          (DiskInode.dropEach entry setEntry 1024 0 (s.blocks (d.slotId s.blocks (second i)))).1
        else (DiskInode.dropEach entry setEntry ((m - 1048) % 1024 + 1) 0
          (s.blocks (d.slotId s.blocks (second i)))).1) ++
        [int32 (entry (s.blocks d.indirect2.toNat) i)] := by
      have start : max n (1047 + 1024 * i) = 1047 + 1024 * i + 0 := by omega
      rw [dropGroup, if_pos (by omega), List.map_append, start]
      congr 1
      split
      · have count : min m (1047 + 1024 * (i + 1)) - (1047 + 1024 * i + 0) = 1024 := by omega
        rw [DiskInode.dropEach_ids DiskInode.entry_get_set _ (by omega), count,
          group_entries d s.blocks i 0 1024 (by omega)]
      · have count : min m (1047 + 1024 * (i + 1)) - (1047 + 1024 * i + 0) =
            (m - 1048) % 1024 + 1 := by omega
        rw [DiskInode.dropEach_ids DiskInode.entry_get_set _ (by omega), count,
          group_entries d s.blocks i 0 ((m - 1048) % 1024 + 1) (by omega)]
    have rest := ih (i := i + 1) (by omega)
    simp only [DiskInode.freeGroups, DevProg.run_bind, read, rest, DevProg.run_pure,
      List.range'_succ, List.flatMap_cons, List.map_append, group]

/-- The group that survives in part: its number is also the block that the loop writes. -/
def strayBlock (n : Nat) : Nat := (n - 1048) / 1024

/-- The index block of that group without the entries that are given up. -/
def cutGroup (m n : Nat) (p : Block) : Block :=
  (DiskInode.dropEach entry setEntry (min m (1047 + 1024 * (strayBlock n + 1)) - n) ((n - 1048) % 1024 + 1) p).2

theorem run_trimGroup {i : Nat} {ind2 : Block} (kept : 1047 < n) (less : n < m)
    (first : (n - 1048) / 1024 ≤ i) (last : i ≤ (m - 1048) / 1024)
    (stray : strayBlock n < s.count) (content : ind2 = D d.indirect2.toNat) :
    (DiskInode.trimGroup ind2 ((n - 1048) / 1024, (n - 1048) % 1024)
        ((m - 1048) / 1024, (m - 1048) % 1024) i (D (d.slotId D (second i)))).run s =
      ((.kSuccess, (dropGroup m n i).map (pushed d D)),
        if i = strayBlock n then s.put (strayBlock n) (cutGroup m n (D (d.slotId D (second i)))) else s) := by
  rw [cutGroup, strayBlock] at *
  have ids : ∀ j c, c ≤ 1024 - j →
      (DiskInode.dropEach entry setEntry c j (D (d.slotId D (second i)))).1 =
        ((List.range' (1047 + 1024 * i + j) c).map data).map (pushed d D) := by
    intro j c fits
    rw [DiskInode.dropEach_ids DiskInode.entry_get_set _ fits, group_entries d D i j c fits]
  have whole : int32 (entry ind2 i) = pushed d D (second i) := by
    rw [content]
    rfl
  by_cases survivor : i = (n - 1048) / 1024
  · have device : i < s.count := survivor ▸ stray
    -- the group of the new end: the tail goes, the index block stays
    have group : dropGroup m n i = (List.range' (1047 + 1024 * i + ((n - 1048) % 1024 + 1))
        (min m (1047 + 1024 * (i + 1)) - n)).map data := by
      rw [dropGroup, if_neg (by omega), List.append_nil]
      congr 2 <;> omega
    rw [if_pos survivor, ← survivor, group, ← ids _ _ (by omega)]
    by_cases only : i = (m - 1048) / 1024
    · have count : (m - 1048) % 1024 - (n - 1048) % 1024 = min m (1047 + 1024 * (i + 1)) - n := by
        omega
      simp only [DiskInode.trimGroup]
      rw [if_neg (by simp), if_neg (by simp [only]), if_neg (by simp [only])]
      simp only [DevProg.run_bind, DevProg.run_writeBlk_of_lt _ device, if_true, DevProg.run_pure, count]
    · have count : 1024 - ((n - 1048) % 1024 + 1) = min m (1047 + 1024 * (i + 1)) - n := by omega
      simp only [DiskInode.trimGroup]
      rw [if_neg (by simp), if_pos (by simpa using only)]
      simp only [DevProg.run_bind, DevProg.run_writeBlk_of_lt _ device, if_true, DevProg.run_pure, count]
  · have start : max n (1047 + 1024 * i) = 1047 + 1024 * i + 0 := by omega
    simp only [DiskInode.trimGroup, dropGroup]
    rw [if_neg survivor, if_pos (show n ≤ 1047 + 1024 * i by omega), List.map_append, List.map_singleton, ← whole,
      start]
    by_cases final : i = (m - 1048) / 1024
    · have count : min m (1047 + 1024 * (i + 1)) - (1047 + 1024 * i + 0) =
          (m - 1048) % 1024 + 1 := by omega
      rw [if_neg (by simp [final]), if_neg (by simp [final]), if_pos ⟨final, survivor⟩,
        DevProg.run_pure, ids _ _ (by omega), count]
    · have count : min m (1047 + 1024 * (i + 1)) - (1047 + 1024 * i + 0) = 1024 := by omega
      rw [if_pos ⟨survivor, final⟩, DevProg.run_pure, ids _ _ (by omega), count]

/-- Only the first round writes. -/
theorem run_trimGroups {c i : Nat} {ind2 : Block} (kept : 1047 < n) (less : n < m)
    (first : strayBlock n ≤ i) (last : i + c = (m - 1048) / 1024 + 1)
    (content : ind2 = D d.indirect2.toNat) (stray : strayBlock n < s.count)
    (onDevice : ∀ q, Valid m (second q) → d.slotId D (second q) < s.count ∧
      d.slotId D (second q) ≠ strayBlock n ∧
      s.blocks (d.slotId D (second q)) = D (d.slotId D (second q))) :
    (DiskInode.trimGroups ind2 ((n - 1048) / 1024, (n - 1048) % 1024)
        ((m - 1048) / 1024, (m - 1048) % 1024) c i).run s =
      ((.kSuccess, ((List.range' i c).flatMap (dropGroup m n)).map (pushed d D)),
        if i = strayBlock n ∧ c ≠ 0 then s.put (strayBlock n) (cutGroup m n (D (d.slotId D (second i))))
        else s) := by
  induction c generalizing i s with
  | zero => simp [DiskInode.trimGroups]
  | succ c ih =>
    obtain ⟨here, -, same⟩ := onDevice i (by simp only [Valid]; omega)
    have read : (DevProg.readBlk (entry ind2 i)).run s =
        (some (D (d.slotId D (second i))), s) := by
      have lookup : entry ind2 i = d.slotId D (second i) := by
        rw [content]
        rfl
      rw [lookup, DevProg.run_readBlk_of_lt here, same]
    have run₁ := run_trimGroup (s := s) kept less first (by omega) stray content
    generalize after : (if i = strayBlock n then s.put (strayBlock n) (cutGroup m n (D (d.slotId D (second i))))
      else s) = s₁ at run₁
    have touches : Touches (fun b => b = strayBlock n) s s₁ := by
      rw [← after]
      split
      · exact .put _ _ rfl
      · exact .refl _ _
    have run₂ := ih (i := i + 1) (s := s₁) (by omega) (by omega) (touches.count ▸ stray) fun q valid => by
      obtain ⟨bound, apart, old⟩ := onDevice q valid
      exact ⟨touches.count ▸ bound, apart, (touches.blocks _ apart).trans old⟩
    rw [if_neg (by omega)] at run₂
    simp only [ne_eq, Nat.add_one_ne_zero, not_false_eq_true, and_true]
    rw [after]
    simp only [DiskInode.trimGroups, DevProg.run_bind, read, run₁, run₂, DevProg.run_pure,
      List.range'_succ, List.flatMap_cons, List.map_append]

/-! ## Steps two and three -/

theorem pushed_congr {x : Slot} (two : d'.indirect2 = d.indirect2)
    (one : x = ind1 ∨ (∃ k, k < 1047 ∧ x = data k) → d'.indirect1 = d.indirect1)
    (high : ∀ k, x = data k → 23 ≤ k) : pushed d' D x = pushed d D x := by
  have same : d'.slotId D x = d.slotId D x := by
    cases x with
    | data k =>
      have low := high k rfl
      simp only [DiskInode.slotId, two, show ¬ k < 23 by omega, if_false]
      split
      · rename_i level
        rw [one (.inr ⟨k, level, rfl⟩)]
      · rfl
    | ind1 => simp only [DiskInode.slotId, one (.inl rfl)]
    | ind2 => simp only [DiskInode.slotId, two]
    | second q => simp only [DiskInode.slotId, two]
  rw [pushed, pushed, same]

/-- The block at `indirect1` without the entries that are given up. -/
def cutFirst (m n : Nat) (p : Block) : Block :=
  (DiskInode.dropEach entry setEntry (min m 1047 - max n 23) (max n 23 - 23) p).2

theorem entry_cutFirst (p : Block) {k : Nat} (low : k < n - 23) : entry (cutFirst m n p) k = entry p k :=
  DiskInode.dropEach_get DiskInode.entry_get_set _ (by omega) (by omega)

/-- The device after step two. -/
def afterFirst (m n : Nat) (d : DiskInode) (s : Disk) : Disk :=
  if n ≤ 23 then s else s.put d.indirect1.toNat (cutFirst m n (s.blocks d.indirect1.toNat))

/-- The device after step three, for the ids on `D`. -/
def afterGroups (m n : Nat) (d : DiskInode) (D : Nat → Block) (s : Disk) : Disk :=
  if n ≤ 1047 then s
  else (s.put (strayBlock n) (cutGroup m n (D (d.slotId D (second (strayBlock n)))))).put d.indirect2.toNat
    (D d.indirect2.toNat)

theorem touches_afterFirst (m n : Nat) (d : DiskInode) (s : Disk) :
    Touches (fun b => 23 < n ∧ b = d.indirect1.toNat) s (afterFirst m n d s) := by
  rw [afterFirst]
  split
  · exact .refl _ _
  · exact .put _ _ ⟨by omega, rfl⟩

theorem touches_afterGroups (m n : Nat) (d : DiskInode) (D : Nat → Block) (s : Disk) :
    Touches (fun b => 1047 < n ∧ (b = strayBlock n ∨ b = d.indirect2.toNat)) s (afterGroups m n d D s) := by
  rw [afterGroups]
  split
  · exact .refl _ _
  · exact (Touches.put _ _ ⟨by omega, .inl rfl⟩).trans (.put _ _ ⟨by omega, .inr rfl⟩)

theorem run_decreaseIndirect1 (less : n < m) (absent : m ≤ 23 → d.indirect1 = 0)
    (present : 23 < m → d.indirect1 ≠ 0 ∧ d.indirect1.toNat < s.count) :
    (d.decreaseIndirect1 m n).run s =
      ((.kSuccess, { d with indirect1 := if n ≤ 23 then 0 else d.indirect1 },
        (if 23 < m then (List.range' (max n 23) (min m 1047 - max n 23)).map data ++
          (if n ≤ 23 then [ind1] else []) else []).map (pushed d s.blocks)), afterFirst m n d s) := by
  rw [afterFirst]
  by_cases big : 23 < m
  · obtain ⟨nonzero, onDevice⟩ := present big
    have ids : (DiskInode.dropEach entry setEntry (min m 1047 - max n 23) (max n 23 - 23)
        (s.blocks d.indirect1.toNat)).1 =
        ((List.range' (max n 23) (min m 1047 - max n 23)).map data).map (pushed d s.blocks) := by
      rw [DiskInode.dropEach_ids DiskInode.entry_get_set _ (by omega), List.map_map,
        show max n 23 = 23 + (max n 23 - 23) by omega, ← List.map_add_range', List.map_map,
        Nat.add_sub_cancel_left]
      apply List.map_congr_left
      intro k member
      obtain ⟨lower, upper⟩ := List.mem_range'_1.mp member
      simp only [Function.comp, pushed, DiskInode.slotId]
      rw [if_neg (by omega), if_pos (by omega), Nat.add_sub_cancel_left]
    by_cases small : n ≤ 23
    · simp only [DiskInode.decreaseIndirect1, nonzero, if_false, DevProg.run_bind,
        DevProg.run_readBlk_of_lt onDevice, small, if_true, DevProg.run_pure, ids, big,
        List.map_append, List.map_singleton]
      rfl
    · simp only [DiskInode.decreaseIndirect1, nonzero, if_false, DevProg.run_bind,
        DevProg.run_readBlk_of_lt onDevice, small, DevProg.run_writeBlk_of_lt _ onDevice, if_true,
        DevProg.run_pure, ids, big, List.append_nil]
      rfl
  · have zero := absent (by omega)
    have small : n ≤ 23 := by omega
    simp only [DiskInode.decreaseIndirect1, zero, if_true, DevProg.run_pure, small, big, if_false,
      List.map_nil]
    rw [← zero]

theorem run_decreaseIndirect2 (less : n < m) (absent : m ≤ 1047 → d.indirect2 = 0)
    (present : 1047 < m → d.indirect2 ≠ 0 ∧ d.indirect2.toNat < s.count ∧
      s.blocks d.indirect2.toNat = D d.indirect2.toNat)
    (stray : strayBlock n < s.count)
    (onDevice : ∀ q, Valid m (second q) → d.slotId D (second q) < s.count ∧
      d.slotId D (second q) ≠ strayBlock n ∧
      s.blocks (d.slotId D (second q)) = D (d.slotId D (second q))) :
    (d.decreaseIndirect2 m n).run s =
      ((.kSuccess, { d with indirect2 := if n ≤ 1047 then 0 else d.indirect2 },
        (if 1047 < m then dropGroups m n ++ (if n ≤ 1047 then [ind2] else [])
          else []).map (pushed d D)), afterGroups m n d D s) := by
  rw [afterGroups]
  by_cases big : 1047 < m
  · obtain ⟨nonzero, bound, content⟩ := present big
    have rj : ((m : Int) - 23 - 1024 - 1).toNat = m - 1048 := by omega
    have ri : ((n : Int) - 23 - 1024 - 1).toNat = n - 1048 := by omega
    have old : 0 ≤ (m : Int) - 23 - 1024 - 1 := by omega
    by_cases small : n ≤ 1047
    · -- no group stays: the blocks are read off before anything is written
      have gone : (n : Int) - 23 - 1024 - 1 < 0 := by omega
      have sees : ∀ x ∈ (List.range' 0 ((m - 1048) / 1024 + 1)).flatMap (dropGroup m n),
          pushed d s.blocks x = pushed d D x := by
        intro x member
        have shape := (mem_dropGroups (n := n) big less x).mp
          (by rw [dropGroups, show (n - 1048) / 1024 = 0 by omega]; exact member)
        have second : ∀ q, d.slotId s.blocks (second q) = d.slotId D (second q) := by
          intro q
          simp only [DiskInode.slotId, content]
        obtain ⟨⟨valid, -⟩, ⟨k, low, rfl⟩ | ⟨q, rfl⟩⟩ := shape
        · have parent : (data k).parent = some (.second ((k - 1047) / 1024)) := by
            simp only [Slot.parent]
            rw [if_neg (by omega), if_neg (by omega)]
          rw [pushed, pushed, DiskInode.slotId_child parent, DiskInode.slotId_child parent, second,
            (onDevice _ (closed_valid m _ _ parent valid)).2.2]
        · rw [pushed, pushed, second]
      have groups := run_freeGroups (d := d) (s := s) big small (i := 0)
        (c := (m - 1048) / 1024 + 1) (by omega) fun q valid => by
          have := (onDevice q valid).1
          simp only [DiskInode.slotId, content] at *
          exact this
      rw [List.map_congr_left sees] at groups
      simp only [DiskInode.decreaseIndirect2, nonzero, if_false, gone, old, and_self, if_true,
        DevProg.run_bind, DevProg.run_readBlk_of_lt bound, rj, groups, DevProg.run_pure, small, big,
        List.map_append, List.map_singleton]
      rw [dropGroups, show (n - 1048) / 1024 = 0 by omega]
      rfl
    · -- the group `strayBlock n` stays, and is written to the block with that number
      have stays : ¬ (n : Int) - 23 - 1024 - 1 < 0 := by omega
      have new : 0 ≤ (n : Int) - 23 - 1024 - 1 := by omega
      have run := run_trimGroups (i := strayBlock n) (c := (m - 1048) / 1024 + 1 - strayBlock n) (by omega) less
        (Nat.le_refl _) (by rw [strayBlock]; omega) content stray onDevice
      have rounds : (m - 1048) / 1024 + 1 - strayBlock n ≠ 0 := by
        rw [strayBlock]
        omega
      rw [if_pos ⟨rfl, rounds⟩] at run
      have bound₁ : d.indirect2.toNat <
          (s.put (strayBlock n) (cutGroup m n (D (d.slotId D (second (strayBlock n)))))).count := bound
      rw [strayBlock] at *
      simp only [DiskInode.decreaseIndirect2, nonzero, if_false, stays, old, new, and_true,
        and_self, if_true, DevProg.run_bind, DevProg.run_readBlk_of_lt bound, rj, ri, run,
        DevProg.run_writeBlk_of_lt _ bound₁, DevProg.run_pure, small, big, List.append_nil, ← content]
      rfl
  · have zero := absent (by omega)
    have small : n ≤ 1047 := by omega
    simp only [DiskInode.decreaseIndirect2, zero, if_true, DevProg.run_pure, small, big, if_false,
      List.map_nil]
    rw [← zero]

theorem run_freeEach {ids : List Nat} (segment : bm.Segment s.count)
    (inside : ∀ id ∈ ids, bm.InSegment id) :
    ∃ s', (DiskInode.freeEach bm (ids.map int32)).run s = (.kSuccess, s') ∧
      Touches bm.Holds s s' ∧ ∀ x, bm.Used s'.blocks x ↔ bm.Used s.blocks x ∧ x ∉ ids := by
  induction ids generalizing s with
  | nil => exact ⟨s, rfl, .refl _ _, by simp⟩
  | cons id ids ih =>
    have here := inside id List.mem_cons_self
    have bound := segment.bound here
    obtain ⟨s₁, run₁, touches₁, used₁⟩ := Bitmap.run_free_id segment.toFits here (by omega)
    obtain ⟨s₂, run₂, touches₂, used₂⟩ := ih (s := s₁) (touches₁.count ▸ segment)
      fun x member => inside x (List.mem_cons_of_mem _ member)
    refine ⟨s₂, ?_, touches₁.trans touches₂, fun x => ?_⟩
    · simp only [List.map_cons, DiskInode.freeEach, DevProg.run_bind,
        uint32_int32 (show id < 4294967296 by omega), run₁, run₂]
    · rw [used₂, used₁, List.mem_cons, not_or, and_assoc]

/-! ## `decrease` -/

/-- The blocks that shrinking to `n` data blocks may write: the bitmap, the index blocks that
survive, the block of the inode itself, and the stray block. -/
def ShrinkWrites (bm : Bitmap) (d : DiskInode) (D : Nat → Block) (n : Nat) (inode : Option Position)
    (b : Nat) : Prop :=
  bm.Holds b ∨ (∃ x, x.isIndex = true ∧ Valid n x ∧ b = d.slotId D x) ∨
    (∃ pos, inode = some pos ∧ b = pos.blockId) ∨ 1047 < n ∧ b = strayBlock n

/-- The effect of shrinking from `m` to `n` data blocks. -/
structure Shrunk (bm : Bitmap) (m n : Nat) (inode : Option Position) (d : DiskInode) (s : Disk)
    (d' : DiskInode) (s' : Disk) : Prop where
  attrs : d' = { d with
    direct := d'.direct, indirect1 := d'.indirect1, indirect2 := d'.indirect2 }
  keeps : ∀ x, Valid n x → d'.slotId s'.blocks x = d.slotId s.blocks x
  used : ∀ id, bm.Used s'.blocks id ↔ bm.Used s.blocks id ∧
    ∀ x, Valid m x → ¬ Valid n x → id ≠ d.slotId s.blocks x
  no1 : n ≤ 23 → d'.indirect1 = 0
  no2 : n ≤ 1047 → d'.indirect2 = 0
  touches : Touches (ShrinkWrites bm d s.blocks n inode) s s'
  stray : 1047 < n → Wrote (strayBlock n) s s'
  inode : ∀ pos, inode = some pos → ∃ base,
    s'.blocks pos.blockId = putInode base pos.blockOffset d' ∧
    ((1047 < n → pos.blockId ≠ strayBlock n) → base = s.blocks pos.blockId)

theorem Shrunk.map {inode : Option Position} (shrunk : Shrunk bm m n inode d s d' s')
    (map : BlockMap bm d s.blocks (Valid m)) (le : n ≤ m) :
    BlockMap bm d' s'.blocks (Valid n) := by
  refine ⟨closed_valid n, ?_, ?_, ?_, ?_⟩
  · intro x valid
    have old := valid.mono le
    rw [shrunk.keeps x valid, shrunk.used]
    refine ⟨map.used x old, fun y validY gone same => gone ?_⟩
    rw [← map.inj x y old validY same]
    exact valid
  · intro x y validX validY same
    rw [shrunk.keeps x validX, shrunk.keeps y validY] at same
    exact map.inj x y (validX.mono le) (validY.mono le) same
  · intro out
    exact shrunk.no1 (by simp only [Valid] at out; omega)
  · intro out
    exact shrunk.no2 (by simp only [Valid] at out; omega)

/-- Step one: `d'` is the inode after the entries of `direct` have been dropped. -/
theorem dropDirect (d : DiskInode) (D : Nat → Block) (m n : Nat) :
    ∃ d', DiskInode.dropEach DiskInode.directAt DiskInode.setDirect (min m 23 - n) n d =
        (((List.range' n (min m 23 - n)).map data).map (pushed d D), d') ∧
      d' = { d with direct := d'.direct } ∧ ∀ k, k < n → d'.directAt k = d.directAt k := by
  refine ⟨_, Prod.ext ?_ rfl, DiskInode.dropEach_direct d _ _, fun k low =>
    DiskInode.dropEach_get DiskInode.direct_get_set d (by omega) (.inl low)⟩
  rw [DiskInode.dropEach_ids DiskInode.direct_get_set d (by omega), List.map_map]
  apply List.map_congr_left
  intro k member
  obtain ⟨lower, upper⟩ := List.mem_range'_1.mp member
  simp only [Function.comp, pushed]
  rw [DiskInode.slotId_direct (by omega)]

/-- The surviving slots keep their ids when the dropped entries are the only change. -/
theorem shrink_keeps {D' : Nat → Block} (direct : ∀ k, k < n → d'.directAt k = d.directAt k)
    (one : 23 < n → d'.indirect1 = d.indirect1) (two : 1047 < n → d'.indirect2 = d.indirect2)
    (entries : ∀ k, k < n - 23 → 23 < n →
      entry (D' d.indirect1.toNat) k = entry (D d.indirect1.toNat) k)
    (blocks : ∀ p, Valid n p → p.isIndex = true → p ≠ ind1 → D' (d.slotId D p) = D (d.slotId D p))
    (x : Slot) (valid : Valid n x) : d'.slotId D' x = d.slotId D x := by
  induction x using parent_induction with
  | step x ih =>
    cases h : x.parent with
    | none =>
      cases x with
      | data k =>
        rw [DiskInode.slotId_direct (data_root h), DiskInode.slotId_direct (data_root h)]
        exact direct k valid
      | ind1 => simp only [DiskInode.slotId, one valid]
      | ind2 => simp only [DiskInode.slotId, two valid]
      | second q => cases h
    | some p =>
      have parentValid := closed_valid n x p h valid
      rw [DiskInode.slotId_child h, DiskInode.slotId_child h, ih p h parentValid]
      by_cases first : p = ind1
      · subst first
        refine entries x.index ?_ parentValid
        cases x with
        | data k =>
          simp only [Valid] at valid parentValid
          simp only [Slot.parent] at h
          simp only [Slot.index]
          split at h
          · cases h
          · split at h
            · rename_i level
              rw [if_pos level]
              omega
            · cases h
        | ind1 => cases h
        | ind2 => cases h
        | second q => cases h
      · rw [blocks p parentValid (parent_isIndex h) first]

/-- The steps of `decrease` before the inode goes out. -/
structure Trimmed (m n : Nat) (d : DiskInode) (s : Disk) (d₁ d₂ d₃ : DiskInode) (ids0 ids1 ids2 : List Int) :
    Prop where
  drop : DiskInode.dropEach DiskInode.directAt DiskInode.setDirect (min m 23 - n) n d = (ids0, d₁)
  first : (d₁.decreaseIndirect1 m n).run s = ((.kSuccess, d₂, ids1), afterFirst m n d s)
  second : (d₂.decreaseIndirect2 m n).run (afterFirst m n d s) =
    ((.kSuccess, d₃, ids2), afterGroups m n d s.blocks (afterFirst m n d s))
  ids : ids0 ++ ids1 ++ ids2 = ((dropSlots m n).map (d.slotId s.blocks)).map int32
  one : d₁.indirect1 = d.indirect1
  two : d₂.indirect2 = d.indirect2
  attrs : d₃ = { d with
    direct := d₃.direct
    indirect1 := if n ≤ 23 then 0 else d.indirect1
    indirect2 := if n ≤ 1047 then 0 else d.indirect2 }
  direct : ∀ k, k < n → d₃.directAt k = d.directAt k

/-- Step two leaves the other blocks of the inode alone. -/
theorem afterFirst_apart (map : BlockMap bm d s.blocks (Valid m)) (less : n < m) {x : Slot} (valid : Valid m x)
    (ne : x ≠ ind1) : (afterFirst m n d s).blocks (d.slotId s.blocks x) = s.blocks (d.slotId s.blocks x) := by
  refine (touches_afterFirst m n d s).blocks _ ?_
  rintro ⟨kept, same⟩
  exact ne (map.inj x ind1 valid (by simp only [Valid]; omega) same)

theorem strayBlock_lt (high : n ≤ 1048576) : strayBlock n < 1024 := by
  rw [strayBlock]
  omega

/-- The index blocks that steps two and three read. -/
theorem index1_there (map : BlockMap bm d s.blocks (Valid m)) (segment : bm.Segment s.count) (big : 23 < m) :
    d.indirect1 ≠ 0 ∧ d.indirect1.toNat < s.count := by
  have here : 1024 < d.indirect1.toNat ∧ d.indirect1.toNat < s.count ∧ _ := segment.bound (map.used ind1 big).1
  exact ⟨fun zero => by simp [zero] at here, here.2.1⟩

theorem index2_there (map : BlockMap bm d s.blocks (Valid m)) (segment : bm.Segment s.count) (less : n < m)
    (big : 1047 < m) : d.indirect2 ≠ 0 ∧ d.indirect2.toNat < (afterFirst m n d s).count ∧
      (afterFirst m n d s).blocks d.indirect2.toNat = s.blocks d.indirect2.toNat := by
  have here : 1024 < d.indirect2.toNat ∧ d.indirect2.toNat < s.count ∧ _ := segment.bound (map.used ind2 big).1
  refine ⟨fun zero => by simp [zero] at here, ?_, afterFirst_apart map less (show Valid m ind2 from big) (by simp)⟩
  rw [(touches_afterFirst m n d s).count]
  exact here.2.1

theorem groups_there (map : BlockMap bm d s.blocks (Valid m)) (segment : bm.Segment s.count) (less : n < m)
    (high : m ≤ 1048576) (q : Nat) (valid : Valid m (second q)) :
    d.slotId s.blocks (second q) < (afterFirst m n d s).count ∧ d.slotId s.blocks (second q) ≠ strayBlock n ∧
      (afterFirst m n d s).blocks (d.slotId s.blocks (second q)) = s.blocks (d.slotId s.blocks (second q)) := by
  have here := segment.bound (map.used _ valid).1
  have strayLow := strayBlock_lt (n := n) (by omega)
  rw [(touches_afterFirst m n d s).count]
  exact ⟨here.2.1, by omega, afterFirst_apart map less valid (by simp)⟩

theorem stray_there (segment : bm.Segment s.count) (less : n < m) (high : m ≤ 1048576) :
    strayBlock n < (afterFirst m n d s).count := by
  have strayLow := strayBlock_lt (n := n) (by omega)
  have := segment.high
  have := segment.onDevice
  rw [(touches_afterFirst m n d s).count]
  omega

theorem run_trim (map : BlockMap bm d s.blocks (Valid m)) (segment : bm.Segment s.count) (less : n < m)
    (high : m ≤ 1048576) : ∃ d₁ d₂ d₃ ids0 ids1 ids2, Trimmed m n d s d₁ d₂ d₃ ids0 ids1 ids2 := by
  obtain ⟨d₁, run₁, fields₁, direct₁⟩ := dropDirect d s.blocks m n
  have one₁ : d₁.indirect1 = d.indirect1 := by rw [fields₁]
  have two₁ : d₁.indirect2 = d.indirect2 := by rw [fields₁]
  -- step two
  have run₂ := run_decreaseIndirect1 (d := d₁) (s := s) less
    (fun small => one₁.trans (map.no1 (by simp only [Valid]; omega)))
    fun big => one₁ ▸ index1_there map segment big
  have cut : afterFirst m n d₁ s = afterFirst m n d s := by rw [afterFirst, afterFirst, one₁]
  have ids₁ : ∀ x ∈ (if 23 < m then (List.range' (max n 23) (min m 1047 - max n 23)).map data ++
      (if n ≤ 23 then [ind1] else []) else []), pushed d₁ s.blocks x = pushed d s.blocks x := by
    intro x member
    refine pushed_congr two₁ (fun _ => one₁) ?_
    rintro k rfl
    split at member
    · rw [List.mem_append, mem_dataRange] at member
      obtain ⟨k', same, lower, -⟩ | member := member
      · cases same
        omega
      · split at member <;> simp at member
    · cases member
  rw [List.map_congr_left ids₁, cut] at run₂
  -- step three
  generalize hd₂ : ({ d₁ with indirect1 := if n ≤ 23 then 0 else d₁.indirect1 } : DiskInode) = d₂
    at run₂
  have two₂ : d₂.indirect2 = d.indirect2 := by
    rw [← hd₂]
    exact two₁
  have groups : ∀ q, d₂.slotId s.blocks (second q) = d.slotId s.blocks (second q) := fun q => by
    simp only [DiskInode.slotId, two₂]
  have run₃ := run_decreaseIndirect2 (d := d₂) (s := afterFirst m n d s) (D := s.blocks) less
    (fun small => two₂.trans (map.no2 (by simp only [Valid]; omega)))
    (fun big => two₂ ▸ index2_there map segment less big) (stray_there segment less high)
    fun q valid => groups q ▸ groups_there map segment less high q valid
  have written : afterGroups m n d₂ s.blocks (afterFirst m n d s) =
      afterGroups m n d s.blocks (afterFirst m n d s) := by
    rw [afterGroups, afterGroups, groups, two₂]
  have ids₂ : ∀ x ∈ (if 1047 < m then dropGroups m n ++ (if n ≤ 1047 then [ind2] else []) else []),
      pushed d₂ s.blocks x = pushed d s.blocks x := by
    intro x member
    have shape : x = ind2 ∨ (∃ k, 1047 ≤ k ∧ x = data k) ∨ ∃ q, x = second q := by
      split at member
      · rename_i big
        rw [List.mem_append] at member
        obtain member | member := member
        · exact .inr ((mem_dropGroups big less x).mp member).2
        · split at member <;> simp at member
          exact .inl member
      · cases member
    refine pushed_congr two₂ ?_ ?_
    · rintro (rfl | ⟨k, low, rfl⟩)
      · simp at shape
      · obtain shape | ⟨k', high, same⟩ | ⟨q, same⟩ := shape
        · cases shape
        · cases same
          omega
        · cases same
    · rintro k rfl
      obtain shape | ⟨k', high, same⟩ | ⟨q, same⟩ := shape
      · cases shape
      · cases same
        omega
      · cases same
  rw [List.map_congr_left ids₂, written] at run₃
  generalize hd₃ : ({ d₂ with indirect2 := if n ≤ 1047 then 0 else d₂.indirect2 } : DiskInode) = d₃
    at run₃
  have ids : ((List.range' n (min m 23 - n)).map data).map (pushed d s.blocks) ++
      (if 23 < m then (List.range' (max n 23) (min m 1047 - max n 23)).map data ++
        (if n ≤ 23 then [ind1] else []) else []).map (pushed d s.blocks) ++
      (if 1047 < m then dropGroups m n ++ (if n ≤ 1047 then [ind2] else [])
        else []).map (pushed d s.blocks) =
      ((dropSlots m n).map (d.slotId s.blocks)).map int32 := by
    rw [← List.map_append, ← List.map_append, List.map_map]
    rfl
  refine ⟨d₁, d₂, d₃, _, _, _, run₁, run₂, run₃, ids, one₁, two₂, ?_, ?_⟩
  · rw [← hd₃, ← hd₂, fields₁]
  · rw [← hd₃, ← hd₂]
    exact direct₁

theorem run_decrease {inode : Option Position} (map : BlockMap bm d s.blocks (Valid m))
    (segment : bm.Segment s.count) (less : n < m) (high : m ≤ 1048576)
    (below : ∀ pos, inode = some pos → pos.blockId < bm.startBlockId) :
    ∃ d' s', (d.decrease m n bm inode).run s = ((.kSuccess, d'), s') ∧
      Shrunk bm m n inode d s d' s' := by
  have inside : ∀ x, Valid m x → bm.InSegment (d.slotId s.blocks x) := fun x valid =>
    (map.used x valid).1
  have startHigh := segment.high
  have startBound := segment.onDevice
  have strayLow := strayBlock_lt (n := n) (by omega)
  obtain ⟨d₁, d₂, d₃, ids0, ids1, ids2, trimmed⟩ := run_trim map segment less high
  have touches₁ := touches_afterFirst m n d s
  have touches₂ := touches_afterGroups m n d s.blocks (afterFirst m n d s)
  have run₂ := trimmed.first
  have run₃ := trimmed.second
  have entries₁ : 23 < n → ∀ k, k < n - 23 →
      entry ((afterFirst m n d s).blocks d.indirect1.toNat) k = entry (s.blocks d.indirect1.toNat) k := by
    intro kept k low
    have here : d.indirect1.toNat < s.count := (segment.bound (inside ind1 (by simp only [Valid]; omega))).2.1
    rw [afterFirst, if_neg (by omega), Store.put_blocks_same _ _ here, entry_cutFirst _ low]
  have content₂ : 1047 < n → (afterGroups m n d s.blocks (afterFirst m n d s)).blocks d.indirect2.toNat =
      s.blocks d.indirect2.toNat := by
    intro kept
    have here := segment.bound (inside ind2 (by simp only [Valid]; omega))
    rw [afterGroups, if_neg (by omega), Store.put_blocks_same]
    exact Nat.lt_of_lt_of_eq here.2.1 touches₁.count.symm
  have stray₂ : 1047 < n → Wrote (strayBlock n) (afterFirst m n d s)
      (afterGroups m n d s.blocks (afterFirst m n d s)) := by
    intro kept
    rw [afterGroups, if_neg (by omega)]
    exact (Wrote.put _ _ _).then_touches (.put (W := fun _ => True) _ _ trivial)
  generalize afterFirst m n d s = s₁ at *
  generalize afterGroups m n d s.blocks s₁ = s₂ at *
  -- the inode goes out
  have segment₂ : s₂.count = s.count := touches₂.count.trans touches₁.count
  obtain ⟨s₃, run₄, touches₃, slot₃⟩ : ∃ s₃, (d.decrease m n bm inode).run s =
        ((((DiskInode.freeEach bm (((dropSlots m n).map (d.slotId s.blocks)).map int32)).run s₃).1,
          d₃), ((DiskInode.freeEach bm (((dropSlots m n).map (d.slotId s.blocks)).map int32)).run
            s₃).2) ∧
      Touches (fun b => ∃ pos, inode = some pos ∧ b = pos.blockId) s₂ s₃ ∧
      ∀ pos, inode = some pos →
        s₃.blocks pos.blockId = putInode (s₂.blocks pos.blockId) pos.blockOffset d₃ := by
    rw [← trimmed.ids]
    cases inode with
    | none =>
      refine ⟨s₂, ?_, .refl _ _, fun pos none => by cases none⟩
      simp only [DiskInode.decrease, trimmed.drop, DevProg.run_bind, run₂, run₃, DevProg.run_pure]
    | some pos =>
      have onDevice : pos.blockId < s₂.count := by
        have := below pos rfl
        omega
      refine ⟨s₂.put pos.blockId (putInode (s₂.blocks pos.blockId) pos.blockOffset d₃), ?_,
        .put _ _ ⟨pos, rfl, rfl⟩, ?_⟩
      · simp only [DiskInode.decrease, trimmed.drop, DevProg.run_bind, run₂, run₃,
          run_writeInode d₃ onDevice, DevProg.run_pure]
      · intro pos' same
        cases same
        exact Store.put_blocks_same _ _ onDevice
  have segment₃ : s₃.count = s.count := touches₃.count.trans segment₂
  have freed : ∀ id ∈ (dropSlots m n).map (d.slotId s.blocks), bm.InSegment id := by
    intro id member
    obtain ⟨x, dropped, rfl⟩ := List.mem_map.mp member
    exact inside x ((mem_dropSlots less x).mp dropped).1
  obtain ⟨s₄, run₅, touches₄, used₄⟩ := run_freeEach (segment₃ ▸ segment) freed
  rw [run₅] at run₄
  refine ⟨d₃, s₄, run₄, ?_⟩
  have one₃ : d₃.indirect1 = if n ≤ 23 then 0 else d.indirect1 := by rw [trimmed.attrs]
  have two₃ : d₃.indirect2 = if n ≤ 1047 then 0 else d.indirect2 := by rw [trimmed.attrs]
  have late : ∀ b, bm.InSegment b → s₄.blocks b = s₂.blocks b := by
    intro b segmentB
    rw [touches₄.blocks b (segment.not_holds segmentB), touches₃.blocks b]
    rintro ⟨pos, some, rfl⟩
    have := below pos some
    have := segment.after
    have := segmentB.1
    omega
  have early : ∀ b, bm.InSegment b → (23 < n → b ≠ d.indirect1.toNat) →
      (1047 < n → b ≠ d.indirect2.toNat) → s₂.blocks b = s.blocks b := by
    intro b segmentB notOne notTwo
    have := (segment.bound segmentB).1
    rw [touches₂.blocks b fun h => h.2.elim (fun same => by omega) (notTwo h.1),
      touches₁.blocks b fun h => notOne h.1 h.2]
  have bits : ∀ b, bm.Holds b → s₃.blocks b = s.blocks b := by
    intro b holds
    have lower := holds.1
    rw [touches₃.blocks b, touches₂.blocks b, touches₁.blocks b]
    · rintro ⟨kept, rfl⟩
      exact segment.not_holds (inside ind1 (by simp only [Valid]; omega)) holds
    · rintro ⟨kept, rfl | rfl⟩
      · omega
      · exact segment.not_holds (inside ind2 (by simp only [Valid]; omega)) holds
    · rintro ⟨pos, some, rfl⟩
      have := below pos some
      omega
  constructor
  case attrs => rw [trimmed.attrs]
  case keeps =>
    refine shrink_keeps trimmed.direct ?_ ?_ ?_ ?_
    · intro kept
      rw [one₃, if_neg (by omega)]
    · intro kept
      rw [two₃, if_neg (by omega)]
    · intro k low kept
      have here := inside ind1 (by simp only [Valid]; omega)
      have below := (segment.bound here).1
      simp only [DiskInode.slotId] at here below
      rw [late _ here, touches₂.blocks _, entries₁ kept k low]
      rintro ⟨kept2, same | same⟩
      · omega
      · cases map.inj ind1 ind2 (by simp only [Valid]; omega) (by simp only [Valid]; omega) same
    · intro p validP isIndex notOne
      have old := validP.mono (Nat.le_of_lt less)
      rw [late _ (inside p old)]
      by_cases two : p = ind2
      · subst two
        exact content₂ validP
      · refine early _ (inside p old) ?_ ?_
        · intro kept same
          exact notOne (map.inj p ind1 old (by simp only [Valid]; omega) same)
        · intro kept same
          exact two (map.inj p ind2 old (by simp only [Valid]; omega) same)
  case used =>
    intro id
    rw [used₄, Bitmap.used_congr bits]
    refine and_congr_right fun _ => ?_
    rw [List.mem_map]
    constructor
    · intro absent x validX gone same
      exact absent ⟨x, (mem_dropSlots less x).mpr ⟨validX, gone⟩, same.symm⟩
    · rintro kept ⟨x, dropped, rfl⟩
      obtain ⟨validX, gone⟩ := (mem_dropSlots less x).mp dropped
      exact kept x validX gone rfl
  case no1 =>
    intro small
    rw [one₃, if_pos small]
  case no2 =>
    intro small
    rw [two₃, if_pos small]
  case touches =>
    refine .trans (touches₁.mono ?_) (.trans (touches₂.mono ?_)
      (.trans (touches₃.mono ?_) (touches₄.mono fun b => .inl)))
    · rintro b ⟨kept, rfl⟩
      exact .inr (.inl ⟨ind1, rfl, kept, rfl⟩)
    · rintro b ⟨kept, rfl | rfl⟩
      · exact .inr (.inr (.inr ⟨kept, rfl⟩))
      · exact .inr (.inl ⟨ind2, rfl, kept, rfl⟩)
    · intro b written
      exact .inr (.inr (.inl written))
  case stray =>
    intro kept
    exact .after_touches touches₁ (((stray₂ kept).then_touches touches₃).then_touches touches₄)
  case inode =>
    intro pos some
    have low := below pos some
    have notHolds : ¬ bm.Holds pos.blockId := fun holds => by
      have := holds.1
      omega
    have above : ∀ x, Valid m x → pos.blockId ≠ d.slotId s.blocks x := by
      intro x validX same
      have := (inside x validX).1
      have := segment.after
      omega
    refine ⟨s₂.blocks pos.blockId, ?_, ?_⟩
    · rw [touches₄.blocks _ notHolds, slot₃ pos some]
    · intro unhit
      rw [touches₂.blocks, touches₁.blocks]
      · rintro ⟨kept, same⟩
        exact above ind1 (by simp only [Valid]; omega) same
      · rintro ⟨kept, same | same⟩
        · exact unhit kept same
        · exact above ind2 (by simp only [Valid]; omega) same

end

end Sbfs
