import Sbfs.StrayFrees
import Sbfs.Lookups

/-! # Crashes while a file shrinks

What the device holds after some of the writes of `Inode::resize`.  The inode goes out before
the bits are cleared, so the frees never expose a block; but the index block at `indirect1` is
cut before the inode goes out, and the group that survives under `indirect2` is written astray,
which may hit the block of the inode. -/

namespace Sbfs

open Slot DevProg

/-- Each block that the inode reaches, for its data or as an index block, is in the data area
and taken. -/
def DiskInode.ReachesUsed (bm : Bitmap) (d : DiskInode) (D : Nat → Block) : Prop :=
  ∀ x, d.Owns x → bm.Used D (d.slotId D x)

/-- `ReachesUsed` of the inode that the device holds at `pos`. -/
def ReachesUsed (bm : Bitmap) (pos : Position) (D : Nat → Block) : Prop :=
  (inodeIn (D pos.blockId) pos.blockOffset).ReachesUsed bm D

/-- Blocks outside the data area may change, and bits be set. -/
theorem DiskInode.ReachesUsed.congr {bm : Bitmap} {d : DiskInode} {D D' : Nat → Block} (reaches : d.ReachesUsed bm D)
    (same : ∀ b, bm.InSegment b → D' b = D b) (kept : ∀ b, bm.Used D b → bm.Used D' b) : d.ReachesUsed bm D' := by
  intro x owns
  rw [slotId_congr (closed_valid _) (fun y ownsY _ => same _ (reaches y ownsY).1) x owns]
  exact kept _ (reaches x owns)

/-- What a block below the data area holds does not matter. -/
theorem DiskInode.reachesUsed_update {bm : Bitmap} {d : DiskInode} {D : Nat → Block} {b : Nat} {v : Block}
    (below : ¬ bm.InSegment b) (notBit : ¬ bm.Holds b) :
    d.ReachesUsed bm (Function.update D b v) ↔ d.ReachesUsed bm D := by
  have same : ∀ c, bm.InSegment c → Function.update D b v c = D c := by
    intro c inside
    have other : c ≠ b := fun eq => below (eq ▸ inside)
    exact Function.update_of_ne other _ _
  have bits : ∀ c, bm.Used (Function.update D b v) c ↔ bm.Used D c := by
    refine fun _ => Bitmap.used_congr fun c holds => ?_
    have other : c ≠ b := fun eq => notBit (eq ▸ holds)
    exact Function.update_of_ne other _ _
  exact ⟨fun reaches => reaches.congr (fun c inside => (same c inside).symm) fun c => (bits c).mp,
    fun reaches => reaches.congr same fun c => (bits c).mpr⟩

/-! ## Steps -/

section

variable {bm : Bitmap} {d d' : DiskInode} {s s' : Disk} {P : (Nat → Block) → Prop} {m n : Nat}

theorem Bitmap.throughout_free {id : Nat} :
    (bm.free id).Throughout P s ↔ P s.blocks ∧ P ((bm.free id).run s).2.blocks := by
  by_cases there : bm.freedBlock id < s.count
  · rw [Bitmap.run_free_there there]
    simp only [Bitmap.free_eq, throughout_bind, throughout_readBlk, throughout_writeBlk, run_readBlk_of_lt there,
      run_writeBlk_of_lt _ there, if_true, throughout_pure]
    grind
  · rw [Bitmap.run_free_missing (Nat.not_lt.mp there)]
    simp only [Bitmap.free_eq, throughout_bind, throughout_readBlk, run_readBlk_of_ge (Nat.not_lt.mp there),
      throughout_pure]

theorem throughout_writeInode {pos : Position} (d : DiskInode) (onDevice : pos.blockId < s.count) :
    (writeInode pos d).Throughout P s ↔
      P s.blocks ∧ P (s.put pos.blockId (putInode (s.blocks pos.blockId) pos.blockOffset d)).blocks := by
  simp only [writeInode, throughout_bind, throughout_readBlk, throughout_writeBlk, run_readBlk_of_lt onDevice,
    run_writeBlk_of_lt _ onDevice, if_true, throughout_pure]
  grind

theorem throughout_decreaseIndirect1 (less : n < m) (absent : m ≤ 23 → d.indirect1 = 0)
    (present : 23 < m → d.indirect1 ≠ 0 ∧ d.indirect1.toNat < s.count) :
    (d.decreaseIndirect1 m n).Throughout P s ↔ P s.blocks ∧ P (afterFirst m n d s).blocks := by
  by_cases big : 23 < m
  · obtain ⟨nonzero, onDevice⟩ := present big
    by_cases small : n ≤ 23
    · simp only [DiskInode.decreaseIndirect1, afterFirst, nonzero, if_false, throughout_bind, throughout_readBlk,
        run_readBlk_of_lt onDevice, small, if_true, throughout_pure]
    · simp only [DiskInode.decreaseIndirect1, afterFirst, nonzero, if_false, throughout_bind, throughout_readBlk,
        run_readBlk_of_lt onDevice, small, throughout_writeBlk, run_writeBlk_of_lt _ onDevice, if_true,
        throughout_pure, cutFirst]
      grind
  · have zero := absent (by omega)
    have small : n ≤ 23 := by omega
    simp only [DiskInode.decreaseIndirect1, afterFirst, zero, small, if_true, throughout_pure, and_self]

theorem readOnly_freeGroups (ind2 : Block) (posj : Nat × Nat) (c i : Nat) :
    (DiskInode.freeGroups ind2 posj c i).ReadOnly := by
  induction c generalizing i with
  | zero => exact trivial
  | succ c ih =>
    rw [DiskInode.freeGroups]
    refine ReadOnly.bind (fun _ => trivial) fun read => ?_
    cases read with
    | none => exact trivial
    | some ind1 => exact (ih (i + 1)).bind fun _ => trivial

/-- Later rounds do not write. -/
theorem readOnly_trimGroups (ind2 : Block) (posi posj : Nat × Nat) {c i : Nat} (later : posi.1 < i) :
    (DiskInode.trimGroups ind2 posi posj c i).ReadOnly := by
  induction c generalizing i with
  | zero => exact trivial
  | succ c ih =>
    rw [DiskInode.trimGroups]
    refine ReadOnly.bind (fun _ => trivial) fun read => ?_
    cases read with
    | none => exact trivial
    | some ind1 =>
      have round : (DiskInode.trimGroup ind2 posi posj i ind1).ReadOnly := by
        have other : i ≠ posi.1 := by omega
        rw [DiskInode.trimGroup]
        by_cases last : i = posj.1
        · rw [if_neg (by simp [last]), if_neg (by simp [other]), if_pos ⟨last, other⟩]
          exact trivial
        · rw [if_pos ⟨other, last⟩]
          exact trivial
      refine round.bind fun r => ?_
      obtain ⟨ret, ids⟩ := r
      cases ret with
      | kFail => exact trivial
      | kSuccess => exact (ih (by omega)).bind fun _ => trivial

/-- The round of the group that survives. -/
theorem trimGroup_survivor (kept : 1047 < n) (less : n < m) (ind2 p : Block) : ∃ ids,
    DiskInode.trimGroup ind2 ((n - 1048) / 1024, (n - 1048) % 1024) ((m - 1048) / 1024, (m - 1048) % 1024)
      (strayBlock n) p = (do
        if ← writeBlk (strayBlock n) (cutGroup m n p) then return (.kSuccess, ids) else return (.kFail, ids)) := by
  have cut : cutGroup m n p = (DiskInode.dropEach entry setEntry (min m (1047 + 1024 * (strayBlock n + 1)) - n)
      ((n - 1048) % 1024 + 1) p).2 := rfl
  have here : (n - 1048) / 1024 = strayBlock n := rfl
  rw [here, cut]
  generalize strayBlock n = i at *
  refine ⟨(DiskInode.dropEach entry setEntry (min m (1047 + 1024 * (i + 1)) - n) ((n - 1048) % 1024 + 1) p).1, ?_⟩
  simp only [DiskInode.trimGroup]
  by_cases only : i = (m - 1048) / 1024
  · have count : (m - 1048) % 1024 - (n - 1048) % 1024 = min m (1047 + 1024 * (i + 1)) - n := by omega
    rw [if_neg (by simp), if_neg (by simp [only]), if_neg (by simp [only]), count]
  · have count : 1024 - ((n - 1048) % 1024 + 1) = min m (1047 + 1024 * (i + 1)) - n := by omega
    rw [if_neg (by simp), if_pos (by simpa using only), count]

theorem throughout_trimGroups {c : Nat} {p : Block} (kept : 1047 < n) (less : n < m)
    (onDevice : entry p (strayBlock n) < s.count) (stray : strayBlock n < s.count) :
    (DiskInode.trimGroups p ((n - 1048) / 1024, (n - 1048) % 1024) ((m - 1048) / 1024, (m - 1048) % 1024)
      (c + 1) (strayBlock n)).Throughout P s ↔ P s.blocks ∧
        P (s.put (strayBlock n) (cutGroup m n (s.blocks (entry p (strayBlock n))))).blocks := by
  obtain ⟨ids, round⟩ := trimGroup_survivor kept less p (s.blocks (entry p (strayBlock n)))
  have later : ∀ t : Disk, (DiskInode.trimGroups p ((n - 1048) / 1024, (n - 1048) % 1024)
      ((m - 1048) / 1024, (m - 1048) % 1024) c (strayBlock n + 1)).Throughout P t ↔ P t.blocks := fun t =>
    (readOnly_trimGroups p _ _ (by simp only [strayBlock]; omega)).throughout
  have quiet : ∀ t : Disk, ((DiskInode.trimGroups p ((n - 1048) / 1024, (n - 1048) % 1024)
      ((m - 1048) / 1024, (m - 1048) % 1024) c (strayBlock n + 1)).run t).2.blocks = t.blocks := fun t =>
    ((readOnly_trimGroups p _ _ (by simp only [strayBlock]; omega)).touches t).quiet
  simp only [DiskInode.trimGroups, throughout_bind, throughout_readBlk, run_readBlk_of_lt onDevice, round, run_bind,
    throughout_writeBlk, run_writeBlk_of_lt _ stray, if_true, throughout_pure, run_pure, later, quiet]
  grind

/-- Giving up all groups writes nothing. -/
theorem readOnly_decreaseIndirect2 (d : DiskInode) (m : Nat) (small : n ≤ 1047) :
    (d.decreaseIndirect2 m n).ReadOnly := by
  have gone : ¬ (0 : Int) ≤ (n : Int) - 23 - 1024 - 1 := by omega
  rw [DiskInode.decreaseIndirect2]
  split
  · exact trivial
  · simp only [gone, false_and, if_false]
    split
    · refine ReadOnly.bind (fun _ => trivial) fun read => ?_
      cases read with
      | none => exact trivial
      | some ind2 =>
        refine (readOnly_freeGroups ind2 _ _ _).bind fun r => ?_
        obtain ⟨ret, ids⟩ := r
        cases ret with
        | kFail => exact trivial
        | kSuccess => exact trivial
    · exact trivial

theorem throughout_decreaseIndirect2 {D : Nat → Block} (less : n < m)
    (present : 1047 < m → d.indirect2 ≠ 0 ∧ d.indirect2.toNat < s.count ∧
      s.blocks d.indirect2.toNat = D d.indirect2.toNat)
    (stray : strayBlock n < s.count)
    (onDevice : ∀ q, Valid m (second q) → d.slotId D (second q) < s.count ∧
      d.slotId D (second q) ≠ strayBlock n ∧
      s.blocks (d.slotId D (second q)) = D (d.slotId D (second q))) :
    (d.decreaseIndirect2 m n).Throughout P s ↔ P s.blocks ∧
      (1047 < n → P (s.put (strayBlock n) (cutGroup m n (D (d.slotId D (second (strayBlock n)))))).blocks) ∧
        P (afterGroups m n d D s).blocks := by
  by_cases small : n ≤ 1047
  · rw [(readOnly_decreaseIndirect2 d m small).throughout, afterGroups, if_pos small]
    simp only [Nat.not_lt.mpr small, false_imp_iff, true_and, and_self]
  · obtain ⟨nonzero, bound, content⟩ := present (by omega)
    have rj : ((m : Int) - 23 - 1024 - 1).toNat = m - 1048 := by omega
    have ri : ((n : Int) - 23 - 1024 - 1).toNat = n - 1048 := by omega
    have old : 0 ≤ (m : Int) - 23 - 1024 - 1 := by omega
    have stays : ¬ (n : Int) - 23 - 1024 - 1 < 0 := by omega
    have new : 0 ≤ (n : Int) - 23 - 1024 - 1 := by omega
    have here : (n - 1048) / 1024 = strayBlock n := rfl
    obtain ⟨c, rounds⟩ : ∃ c, (m - 1048) / 1024 + 1 - strayBlock n = c + 1 :=
      ⟨(m - 1048) / 1024 - strayBlock n, by rw [strayBlock]; omega⟩
    have group := onDevice (strayBlock n) (by simp only [Valid, strayBlock]; omega)
    have entries : entry (s.blocks d.indirect2.toNat) (strayBlock n) = d.slotId D (second (strayBlock n)) := by
      rw [content]
      rfl
    have moments := throughout_trimGroups (P := P) (s := s) (c := c) (p := s.blocks d.indirect2.toNat)
      (by omega) less (by rw [entries]; exact group.1) stray
    rw [entries, group.2.2, here] at moments
    have run := run_trimGroups (i := strayBlock n) (c := c + 1) (by omega) less
      (Nat.le_refl _) (by rw [← rounds, strayBlock]; omega) content stray onDevice
    rw [if_pos ⟨rfl, Nat.succ_ne_zero c⟩, here] at run
    rw [afterGroups, if_neg small]
    have bound₁ : d.indirect2.toNat <
        (s.put (strayBlock n) (cutGroup m n (D (d.slotId D (second (strayBlock n)))))).count := bound
    simp only [DiskInode.decreaseIndirect2, nonzero, if_false, stays, old, new, and_true, and_self, if_true,
      throughout_bind, throughout_readBlk, run_readBlk_of_lt bound, rj, ri, here, rounds, moments, run,
      throughout_writeBlk, run_writeBlk_of_lt _ bound₁, throughout_pure, ← content, Nat.not_le.mp small]
    grind

/-- While bits are cleared the other blocks are those of the end, and the bits set at the end are set. -/
theorem throughout_freeEach {ids : List Nat} {t : Disk} (segment : bm.Segment s.count)
    (inside : ∀ id ∈ ids, bm.InSegment id) (run : ((DiskInode.freeEach bm (ids.map int32)).run s).2 = t)
    (safe : ∀ D, (∀ b, ¬ bm.Holds b → D b = t.blocks b) → (∀ x, bm.Used t.blocks x → bm.Used D x) → P D) :
    (DiskInode.freeEach bm (ids.map int32)).Throughout P s := by
  have start : ∀ {ids : List Nat} {s : Disk}, bm.Segment s.count → (∀ id ∈ ids, bm.InSegment id) →
      ((DiskInode.freeEach bm (ids.map int32)).run s).2 = t → P s.blocks := by
    intro ids s segment inside run
    obtain ⟨s', run', touches, used⟩ := run_freeEach segment inside
    rw [run'] at run
    subst run
    exact safe s.blocks (fun b out => (touches.blocks b out).symm) fun x set => ((used x).mp set).1
  induction ids generalizing s with
  | nil => exact start segment inside run
  | cons id ids ih =>
    have first := start segment inside run
    have here := inside id List.mem_cons_self
    have bound := segment.bound here
    have others : ∀ x ∈ ids, bm.InSegment x := fun x member => inside x (List.mem_cons_of_mem _ member)
    obtain ⟨s₁, run₁, touches₁, -⟩ := Bitmap.run_free_id segment.toFits here (by omega)
    simp only [List.map_cons, DiskInode.freeEach, uint32_int32 (show id < 4294967296 by omega), run_bind, run₁] at run
    simp only [List.map_cons, DiskInode.freeEach, uint32_int32 (show id < 4294967296 by omega)]
    rw [throughout_bind, Bitmap.throughout_free, run₁]
    exact ⟨⟨first, start (touches₁.count ▸ segment) others run⟩, ih (touches₁.count ▸ segment) others run⟩

/-- The moments of `decrease` before the inode goes out; those after it are like the end. -/
theorem throughout_decrease {pos : Position} {t : Disk} (map : BlockMap bm d s.blocks (Valid m))
    (segment : bm.Segment s.count) (less : n < m) (high : m ≤ 1048576) (below : pos.blockId < bm.startBlockId)
    (run : ((d.decrease m n bm (some pos)).run s).2 = t)
    (safe : ∀ D, (∀ b, ¬ bm.Holds b → D b = t.blocks b) → (∀ x, bm.Used t.blocks x → bm.Used D x) → P D) :
    (d.decrease m n bm (some pos)).Throughout P s ↔ P s.blocks ∧ P (afterFirst m n d s).blocks ∧
      (1047 < n → P ((afterFirst m n d s).put (strayBlock n)
        (cutGroup m n (s.blocks (d.slotId s.blocks (second (strayBlock n)))))).blocks) ∧
      P (afterGroups m n d s.blocks (afterFirst m n d s)).blocks := by
  obtain ⟨d₁, d₂, d₃, ids0, ids1, ids2, trimmed⟩ := run_trim map segment less high
  have cut : afterFirst m n d₁ s = afterFirst m n d s := by rw [afterFirst, afterFirst, trimmed.one]
  have groups : ∀ q, d₂.slotId s.blocks (second q) = d.slotId s.blocks (second q) := fun q => by
    simp only [DiskInode.slotId, trimmed.two]
  have written : afterGroups m n d₂ s.blocks (afterFirst m n d s) =
      afterGroups m n d s.blocks (afterFirst m n d s) := by
    rw [afterGroups, afterGroups, groups, trimmed.two]
  have moments₁ := throughout_decreaseIndirect1 (P := P) (d := d₁) (s := s) less
    (fun small => trimmed.one.trans (map.no1 (by simp only [Valid]; omega)))
    fun big => trimmed.one ▸ index1_there map segment big
  rw [cut] at moments₁
  have moments₂ := throughout_decreaseIndirect2 (P := P) (d := d₂) (s := afterFirst m n d s) (D := s.blocks) less
    (fun big => trimmed.two ▸ index2_there map segment less big) (stray_there segment less high)
    fun q valid => groups q ▸ groups_there map segment less high q valid
  rw [written, groups] at moments₂
  have count : (afterGroups m n d s.blocks (afterFirst m n d s)).count = s.count :=
    (touches_afterGroups _ _ _ _ _).count.trans (touches_afterFirst _ _ _ _).count
  have onDevice : pos.blockId < (afterGroups m n d s.blocks (afterFirst m n d s)).count := by
    have := segment.onDevice
    omega
  have run₂ := trimmed.first
  have run₃ := trimmed.second
  have ids := trimmed.ids
  generalize afterGroups m n d s.blocks (afterFirst m n d s) = s₂ at *
  simp only [DiskInode.decrease, trimmed.drop, run_bind, run₂, run₃, run_writeInode d₃ onDevice, ids, run_pure] at run
  have segment₃ : bm.Segment (s₂.put pos.blockId (putInode (s₂.blocks pos.blockId) pos.blockOffset d₃)).count :=
    count.symm ▸ segment
  have freed : ∀ id ∈ (dropSlots m n).map (d.slotId s.blocks), bm.InSegment id := by
    intro id member
    obtain ⟨x, dropped, rfl⟩ := List.mem_map.mp member
    exact (map.used x ((mem_dropSlots less x).mp dropped).1).1
  have frees := throughout_freeEach segment₃ freed run safe
  have finish := safe t.blocks (fun _ _ => rfl) fun _ used => used
  simp only [DiskInode.decrease, trimmed.drop, throughout_bind, moments₁, run₂, moments₂, run₃,
    throughout_writeInode d₃ onDevice, run_writeInode d₃ onDevice, ids, throughout_pure, frees, frees.start, run,
    finish, and_true]
  grind

/-! ## What is written before the inode -/

/-- Where no entry of `indirect1` is given up, the block is written as it was. -/
theorem afterFirst_same (none : n ≤ 23 ∨ 1047 ≤ n) : (afterFirst m n d s).blocks = s.blocks := by
  rw [afterFirst]
  split
  · rfl
  · have cut : cutFirst m n (s.blocks d.indirect1.toNat) = s.blocks d.indirect1.toNat := by
      rw [cutFirst, show min m 1047 - max n 23 = 0 by omega]
      rfl
    rw [cut]
    exact s.put_blocks_self _

/-- Else the first of the entries given up is `-1`. -/
theorem slotId_afterFirst (low : 23 < n) (less : n < m) (high : n < 1047) (onDevice : d.indirect1.toNat < s.count) :
    d.slotId (afterFirst m n d s).blocks (data n) = kFailId := by
  have first : entry (cutFirst m n (s.blocks d.indirect1.toNat)) (n - 23) = kFailId := by
    rw [cutFirst, show max n 23 - 23 = n - 23 by omega]
    exact DiskInode.dropEach_first DiskInode.entry_get_set _ (by omega) (by omega)
  simp only [DiskInode.slotId]
  rw [if_neg (by omega), if_pos high, afterFirst, if_neg (by omega), Store.put_blocks_same _ _ onDevice, first]

theorem afterGroups_small {D : Nat → Block} (small : n ≤ 1047) : afterGroups m n d D s = s := if_pos small

/-- The block at `indirect2` is written as it was. -/
theorem afterGroups_same {D : Nat → Block} (kept : 1047 < n) (content : s.blocks d.indirect2.toNat = D d.indirect2.toNat)
    (apart : d.indirect2.toNat ≠ strayBlock n) : (afterGroups m n d D s).blocks =
      (s.put (strayBlock n) (cutGroup m n (D (d.slotId D (second (strayBlock n)))))).blocks := by
  rw [afterGroups, if_neg (by omega), ← content]
  have old := Store.put_blocks_ne s (cutGroup m n (D (d.slotId D (second (strayBlock n))))) apart
  rw [← old]
  exact Store.put_blocks_self _ _

end

/-! ## `Inode::resize` -/

/-- What the writes before the inode need: none of them gives up an entry of `indirect1`, and
if the group that survives is written over the inode, its entries read as an inode all of
whose blocks are taken. -/
def CrashSafe (bm : Bitmap) (pos : Position) (d : DiskInode) (D : Nat → Block) (m n : Nat) : Prop :=
  n = m ∨ n ≤ 23 ∨ n = 1047 ∨ 1047 < n ∧ (pos.blockId = strayBlock n →
    (inodeIn (cutGroup m n (D (d.slotId D (second (strayBlock n))))) pos.blockOffset).ReachesUsed bm D)

section

variable {L : Layout} {pos : Position} {d d' : DiskInode} {s s' : Disk} {newSize : Nat}

theorem reachesUsed_of_mapped {bm : Bitmap} {D : Nat → Block} (here : inodeIn (D pos.blockId) pos.blockOffset = d)
    (map : WellMapped bm d D) : ReachesUsed bm pos D := by
  rw [ReachesUsed, here]
  exact map.used

/-- The moments before the inode goes out are safe under the condition only. -/
theorem moments_iff {bm : Bitmap} {m n : Nat} (segment : bm.Segment s.count) (low : pos.blockId < bm.startBlockId)
    (here : inodeIn (s.blocks pos.blockId) pos.blockOffset = d) (map : WellMapped bm d s.blocks)
    (full : dataBlocks d.size.toNat = m) (less : n < m) :
    (ReachesUsed bm pos (afterFirst m n d s).blocks ∧
      (1047 < n → ReachesUsed bm pos ((afterFirst m n d s).put (strayBlock n)
        (cutGroup m n (s.blocks (d.slotId s.blocks (second (strayBlock n)))))).blocks) ∧
      ReachesUsed bm pos (afterGroups m n d s.blocks (afterFirst m n d s)).blocks) ↔
    CrashSafe bm pos d s.blocks m n := by
  have start := reachesUsed_of_mapped here map
  have owns : ∀ x, d.Owns x ↔ Valid m x := fun x => by rw [DiskInode.Owns, full]
  have valid : BlockMap bm d s.blocks (Valid m) := map.congr fun x => (owns x).symm
  have high : m ≤ 1048576 := full ▸ dataBlocks_le d.size.toNat_lt
  have apart : ∀ x, Valid m x → pos.blockId ≠ d.slotId s.blocks x := fun x validX same => by
    have := (valid.used x validX).1.1
    have := segment.after
    omega
  by_cases small : n ≤ 23 ∨ n = 1047
  · have same : (afterFirst m n d s).blocks = s.blocks := afterFirst_same (by omega)
    -- no entry is given up and no group is cut
    rw [afterGroups_small (by omega), same]
    exact iff_of_true ⟨start, fun kept => by omega, start⟩ (.inr (small.imp_right .inl))
  by_cases cuts : n < 1047
  · -- the inode on the device reaches an entry that is `-1`
    refine iff_of_false (fun moments => ?_) ?_
    · have inode : inodeIn ((afterFirst m n d s).blocks pos.blockId) pos.blockOffset = d := by
        rw [(touches_afterFirst m n d s).blocks _ fun hit => apart ind1 (Nat.lt_trans hit.1 less) hit.2, here]
      have used := moments.1 (data n) (inode.symm ▸ (owns (data n)).mpr less)
      rw [inode, slotId_afterFirst (by omega) less cuts (index1_there valid segment (by omega)).2] at used
      exact absurd (segment.bound used.1).2.2 (by decide)
    · rintro (same | fewer | only | ⟨kept, -⟩) <;> omega
  · have kept : 1047 < n := by omega
    have same : (afterFirst m n d s).blocks = s.blocks := afterFirst_same (by omega)
    have two := index2_there valid segment less (by omega)
    have strayLow := strayBlock_lt (n := n) (by omega)
    have notStray : ∀ x, Valid m x → d.slotId s.blocks x ≠ strayBlock n := fun x validX => by
      have := (segment.bound (valid.used x validX).1).1
      omega
    rw [afterGroups_same kept two.2.2 (notStray ind2 (Nat.lt_trans kept less)),
      Store.put_blocks_of_lt _ _ (stray_there segment less high), same, CrashSafe]
    generalize cutGroup m n (s.blocks (d.slotId s.blocks (second (strayBlock n)))) = written
    have notOther : ¬ (n = m ∨ n ≤ 23 ∨ n = 1047) := by omega
    -- what is written over block `strayBlock n` is no part of the bitmap
    have reads : ∀ e : DiskInode, e.ReachesUsed bm (Function.update s.blocks (strayBlock n) written) ↔
        e.ReachesUsed bm s.blocks := by
      have lowBit := segment.high
      refine fun e => DiskInode.reachesUsed_update (fun inside => ?_) fun holds => ?_
      · have := (segment.bound inside).1
        omega
      · have := holds.1
        omega
    by_cases hit : pos.blockId = strayBlock n
    · -- the inode is overwritten by the entries of the group
      have moment : ReachesUsed bm pos (Function.update s.blocks (strayBlock n) written) ↔
          (inodeIn written pos.blockOffset).ReachesUsed bm s.blocks := by
        rw [ReachesUsed, reads, hit, Function.update_self]
      rw [moment]
      constructor
      · exact fun moments => .inr (.inr (.inr ⟨kept, fun _ => moments.2.2⟩))
      · rintro (equal | few | only | ⟨-, safe⟩)
        · exact absurd (.inl equal) notOther
        · exact absurd (.inr (.inl few)) notOther
        · exact absurd (.inr (.inr only)) notOther
        · exact ⟨start, fun _ => safe hit, safe hit⟩
    · have moment : ReachesUsed bm pos (Function.update s.blocks (strayBlock n) written) ↔
          ReachesUsed bm pos s.blocks := by
        rw [ReachesUsed, reads, Function.update_of_ne hit, ReachesUsed]
      rw [moment]
      exact iff_of_true ⟨start, fun _ => start, start⟩ (.inr (.inr (.inr ⟨kept, fun same => absurd same hit⟩)))

theorem throughout_shrink (slot : SlotInside L.formatted pos) (io : L.areaEnd ≤ s.count)
    (here : inodeIn (s.blocks pos.blockId) pos.blockOffset = d) (file : d.type = kFile)
    (map : WellMapped L.formatted.dataBitmap d s.blocks) (less : newSize < d.size.toNat) :
    (Inode.resize L.formatted pos newSize).Throughout (ReachesUsed L.formatted.dataBitmap pos) s ↔
      CrashSafe L.formatted.dataBitmap pos d s.blocks (dataBlocks d.size.toNat) (dataBlocks newSize) := by
  have segment := L.segment io
  have low := L.slot_below slot
  have size32 : newSize < 4294967296 := Nat.lt_trans less d.size.toNat_lt
  have shrink : dataBlocks newSize ≤ dataBlocks d.size.toNat := by
    simp only [dataBlocks]
    omega
  have onDevice : pos.blockId < s.count := by
    have := segment.onDevice
    omega
  have read : (readInode pos).run s = (some d, s) := by
    simp only [readInode, DevProg.run_bind, DevProg.run_readBlk_of_lt onDevice, DevProg.run_pure, here]
  have enough : growth d newSize ≤ (L.formatted.dataBitmap.freeIds s.blocks).length := by
    rw [growth_shrink shrink]
    exact Nat.zero_le _
  obtain ⟨d', t, run, resized, base, written, -⟩ := run_inodeResize here file map segment size32 enough low
  have start := reachesUsed_of_mapped here map
  -- from the write of the inode on, the device is like that of the end
  have segment' : L.formatted.dataBitmap.Segment t.count := resized.touches.count ▸ segment
  have safe : ∀ D, (∀ b, ¬ L.formatted.dataBitmap.Holds b → D b = t.blocks b) →
      (∀ x, L.formatted.dataBitmap.Used t.blocks x → L.formatted.dataBitmap.Used D x) →
      ReachesUsed L.formatted.dataBitmap pos D := by
    intro D same kept
    rw [ReachesUsed, same _ slot.notDataBitmap, written, inodeIn_putInode _ _ slot.inBlock]
    have final : d'.ReachesUsed L.formatted.dataBitmap t.blocks := resized.map.used
    exact final.congr (fun b inside => same b (segment'.not_holds inside)) kept
  obtain ⟨d₁, s₁, run₁, retimed, touches₁⟩ := run_updateMeta d 7 s
  have blocks₁ := touches₁.quiet
  have oldSize : d₁.size = d.size := by rw [retimed]
  generalize hd₂ : ({ d₁ with size := UInt32.ofNat newSize } : DiskInode) = d₂
  have ids : ∀ D, d₂.slotId D = d.slotId D := by
    subst hd₂
    exact slotId_pointers (by rw [retimed]) (by rw [retimed]) (by rw [retimed])
  have one : d₂.indirect1 = d.indirect1 := by rw [← hd₂, retimed]
  have two : d₂.indirect2 = d.indirect2 := by rw [← hd₂, retimed]
  have smaller : ¬ d.size.toNat < newSize := by omega
  -- the call looks at the inode and the clock before it writes
  have opening : (Inode.resize L.formatted pos newSize).Throughout (ReachesUsed L.formatted.dataBitmap pos) s ↔
      (d.resize newSize L.formatted.dataBitmap (some pos)).Throughout (ReachesUsed L.formatted.dataBitmap pos) s := by
    rw [Inode.resize, throughout_bind, (readOnly_readInode pos).throughout, read]
    simp only [file, ne_eq, not_true_eq_false, if_false, smaller, start, true_and]
    exact throughout_map
  have finish : ((d.resize newSize L.formatted.dataBitmap (some pos)).run s).2 = t := by
    have run := congrArg Prod.snd run
    simp only [Inode.resize, run_bind, read, file, ne_eq, not_true_eq_false, if_false, smaller, run_pure] at run
    exact run
  rw [opening, DiskInode.resize, throughout_bind, (DiskInode.readOnly_updateMeta d 7).throughout, run₁]
  rw [DiskInode.resize, run_bind, run₁] at finish
  simp only [start, true_and, oldSize, hd₂] at finish ⊢
  have start₁ : ReachesUsed L.formatted.dataBitmap pos s₁.blocks := blocks₁ ▸ start
  have done := safe t.blocks (fun _ _ => rfl) fun _ used => used
  have segment₁ : L.formatted.dataBitmap.Segment s₁.count := touches₁.count ▸ segment
  rw [← blocks₁] at map ⊢
  by_cases same : dataBlocks d.size.toNat = dataBlocks newSize
  · have onDevice₁ : pos.blockId < s₁.count := touches₁.count ▸ onDevice
    rw [if_pos (totalBlocks_eq.mpr same)] at finish ⊢
    rw [run_bind, run_writeInode d₂ onDevice₁] at finish
    rw [throughout_map, throughout_writeInode d₂ onDevice₁]
    have written : (s₁.put pos.blockId (putInode (s₁.blocks pos.blockId) pos.blockOffset d₂)) = t := finish
    exact iff_of_true ⟨start₁, written ▸ done⟩ (.inl same.symm)
  · have fewer : dataBlocks newSize < dataBlocks d.size.toNat := by omega
    have total : ¬ DiskInode.totalBlocks d.size.toNat = DiskInode.totalBlocks newSize :=
      fun eq => same (totalBlocks_eq.mp eq)
    rw [if_neg total, if_pos (totalBlocks_lt.mpr fewer)] at finish ⊢
    have mapTwo := map.of_ids (ids s₁.blocks)
    have first : ∀ m n, afterFirst m n d₂ s₁ = afterFirst m n d s₁ := fun m n => by rw [afterFirst, afterFirst, one]
    have groups : ∀ m n D t, afterGroups m n d₂ D t = afterGroups m n d D t := fun m n D t => by
      rw [afterGroups, afterGroups, ids, two]
    have here₁ : inodeIn (s₁.blocks pos.blockId) pos.blockOffset = d := by rw [blocks₁, here]
    rw [throughout_decrease mapTwo segment₁ fewer (dataBlocks_le d.size.toNat_lt) low finish safe, ids, first, groups,
      and_iff_right start₁]
    exact moments_iff segment₁ low here₁ map rfl fewer

end

/-- After every prefix of the writes of a shrinking `Inode::resize` the inode on the device
reaches taken blocks only, exactly when the writes before the inode leave its entries alone. -/
theorem shrink_crash_iff (L : Layout) {pos : Position} (slot : SlotInside L.formatted pos) {s : Disk}
    (io : L.areaEnd ≤ s.count) {d : DiskInode} (here : inodeIn (s.blocks pos.blockId) pos.blockOffset = d)
    (file : d.type = kFile) (map : WellMapped L.formatted.dataBitmap d s.blocks) {newSize : Nat}
    (less : newSize < d.size.toNat) :
    (∀ ws, s.writes ++ ws <+: ((Inode.resize L.formatted pos newSize).run s).2.writes →
      ReachesUsed L.formatted.dataBitmap pos (s.after ws)) ↔
    CrashSafe L.formatted.dataBitmap pos d s.blocks (dataBlocks d.size.toNat) (dataBlocks newSize) :=
  throughout_iff.symm.trans (throughout_shrink slot io here file map less)

theorem shrink_crash_iff_deepFile :
    let pos := Layout.default.formatted.getDiskInodePos 2
    let bm := Layout.default.formatted.dataBitmap
    (∀ ws, deepDisk.writes ++ ws <+: ((Inode.resize Layout.default.formatted pos 94208).run deepDisk).2.writes →
      ReachesUsed bm pos (deepDisk.after ws)) ↔
    CrashSafe bm pos deepFile deepDisk.blocks (dataBlocks deepFile.size.toNat) (dataBlocks 94208) :=
  shrink_crash_iff .default deepFile_slot deepDisk_device deepDisk_inode rfl deepFile_mapped (by decide)

/-- Shrinking `deepFile` to 24 blocks cuts its index block while the inode on the device still
has the old size. -/
theorem shrink_crash_deepFile :
    ¬ ∀ (L : Layout) (pos : Position), SlotInside L.formatted pos →
      ∀ (s : Disk), L.areaEnd ≤ s.count →
      ∀ (d : DiskInode), inodeIn (s.blocks pos.blockId) pos.blockOffset = d → d.type = kFile →
        WellMapped L.formatted.dataBitmap d s.blocks →
      ∀ newSize, newSize < d.size.toNat →
      ∀ ws, s.writes ++ ws <+: ((Inode.resize L.formatted pos newSize).run s).2.writes →
        ReachesUsed L.formatted.dataBitmap pos (s.after ws) := by
  intro always
  have shrinks : ∀ {newSize : Nat}, newSize < deepFile.size.toNat →
      CrashSafe Layout.default.formatted.dataBitmap (Layout.default.formatted.getDiskInodePos 2) deepFile
        deepDisk.blocks (dataBlocks deepFile.size.toNat) (dataBlocks newSize) := by
    intro newSize less
    rw [← throughout_shrink deepFile_slot deepDisk_device deepDisk_inode rfl deepFile_mapped less, throughout_iff]
    exact always .default _ deepFile_slot deepDisk deepDisk_device deepFile deepDisk_inode rfl deepFile_mapped newSize less
  have safe := shrinks (show 98304 < deepFile.size.toNat by decide)
  have old : dataBlocks deepFile.size.toNat = 1049 := deepFile_blocks
  have new : dataBlocks 98304 = 24 := by decide
  obtain same | few | only | ⟨kept, -⟩ := safe
  · rw [old, new] at same
    exact absurd same (by decide)
  · rw [new] at few
    exact absurd few (by decide)
  · rw [new] at only
    exact absurd only (by decide)
  · rw [new] at kept
    exact absurd kept (by decide)

end Sbfs
