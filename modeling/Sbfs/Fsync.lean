import Sbfs.Vfs
import Sbfs.CacheTransparency
import Sbfs.Ownership

/-! # Durability

What `sb_fsync` leaves on the disk.  Here the programs of the upper layers run on the
block device with its cache.  `Inode::sync` writes the data blocks and the block of the
inode, and leaves out the index blocks (`sync_data` is called without `indirect`), so a
file survives a crash when its index blocks happen to be on the disk already. -/

namespace Sbfs

open Slot

/-! ## Programs on the block device -/

/-- The block device and the clock. -/
structure Machine where
  dev : BlockDevice
  clock : Nat → Nat

namespace Machine

/-- The content of the blocks as the programs see it. -/
def logical (s : Machine) : Nat → Block := s.dev.logical

/-- The content of the blocks on the disk, which is what a crash leaves. -/
def onDisk (s : Machine) : Nat → Block := s.dev.disk.blocks

/-- The answer to a request; a request that left the slot vector would change nothing here,
which the invariant of the cache excludes. -/
def serve {ρ : Type} (fallback : ρ) (s : Machine) (answer : Option (ρ × BlockDevice)) : ρ × Machine :=
  match answer with
  | some (r, dev) => (r, { s with dev })
  | none => (fallback, s)

/-- The block device as a handler. -/
def handler : Handler Block Machine where
  read id s := serve none s (s.dev.read id)
  write id blk s := serve false s ((s.dev.write id blk).map fun r => (decide (r.1 = .kSuccess), r.2))
  sync id s := serve false s ((s.dev.sync id).map fun r => (decide (r.1 = .kSuccess), r.2))
  syncAll s := serve false s (s.dev.syncAll.map fun r => (decide (r.1 = .kSuccess), r.2))
  time s := (s.clock 0, { s with clock := fun n => s.clock (n + 1) })

/-- The cache is in order, and block ids are `uint32_t`. -/
structure Sound (s : Machine) : Prop where
  inv : ∃ used, CacheInv s.dev used
  small : s.dev.disk.count < 4294967296

/-- The machine may have written back cached blocks, and nothing else. -/
structure Settled (s s' : Machine) : Prop where
  sound : s'.Sound
  same : SameContent s.dev s'.dev

variable {s s' s'' : Machine}

theorem Settled.refl (sound : s.Sound) : Settled s s := ⟨sound, .refl _⟩

theorem Settled.trans (first : Settled s s') (second : Settled s' s'') : Settled s s'' :=
  ⟨second.sound, first.same.trans second.same⟩

theorem Settled.logical (settled : Settled s s') : s'.logical = s.logical :=
  funext settled.same.logical

/-- Logical content that is on the disk stays there. -/
theorem Settled.kept (settled : Settled s s') {b : Nat} (here : s.onDisk b = s.logical b) :
    s'.onDisk b = s.logical b := by
  rcases settled.same.disk b with same | written
  · exact Eq.trans same here
  · exact written

/-! ### Requests -/

theorem interp_readBlk (sound : s.Sound) {id : Nat} (small : id < 4294967296) :
    ∃ s', (DevProg.readBlk id).interp handler s =
        (if id < s.dev.disk.count then some (s.logical id) else none, s') ∧ Settled s s' := by
  obtain ⟨used, inv⟩ := sound.inv
  obtain ⟨dev', used', eq, inv', same, -⟩ := BlockDevice.read_spec inv small
  refine ⟨{ s with dev := dev' }, ?_, ⟨⟨used', inv'⟩, same.count ▸ sound.small⟩, same⟩
  simp only [DevProg.readBlk, DevProg.interp, handler, serve, eq]
  rfl

theorem interp_syncBlk (sound : s.Sound) (id : Nat) :
    ∃ ok s', (DevProg.syncBlk id).interp handler s = (ok, s') ∧ Settled s s' ∧
      (ok = true → id < s.dev.disk.count ∧ s'.onDisk id = s.logical id) := by
  obtain ⟨used, inv⟩ := sound.inv
  obtain ⟨ret, dev', eq, inv', same, flushed, -, -⟩ := BlockDevice.sync_spec inv id
  refine ⟨decide (ret = .kSuccess), { s with dev := dev' }, ?_,
    ⟨⟨⟨used, inv'⟩, same.count ▸ sound.small⟩, same⟩, fun ok => ?_⟩
  · simp only [DevProg.syncBlk, DevProg.interp, handler, serve, eq, Option.map_some]
  · have success := of_decide_eq_true ok
    refine ⟨?_, flushed success⟩
    cases hashed : s.dev.cache.hashtable id with
    | none =>
      simp only [BlockDevice.sync, hashed, Option.some.injEq, Prod.mk.injEq] at eq
      rw [success] at eq
      cases eq.1
    | some slot => exact (inv.hash id slot hashed).2.2.2

/-! ### `Inode::sync` -/

/-- `block_id` finds the block, or fails to read an index block. -/
theorem interp_blockId (sound : s.Sound) (d : DiskInode) {k : Nat} (small : k < 1048576) :
    ∃ id s', (d.blockId k).interp handler s = (id, s') ∧ Settled s s' ∧
      (id = d.slotId s.logical (data k) ∨ id = kFailId) := by
  rw [DiskInode.blockId, if_neg (by omega)]
  by_cases direct : k < 23
  · rw [if_pos direct]
    exact ⟨_, s, rfl, .refl sound, .inl (DiskInode.slotId_direct direct).symm⟩
  rw [if_neg direct]
  by_cases level : k < 23 + 1024
  · rw [if_pos level]
    obtain ⟨s₁, eq₁, settled₁⟩ := interp_readBlk sound d.indirect1.toNat_lt
    by_cases onDevice : d.indirect1.toNat < s.dev.disk.count
    · rw [if_pos onDevice] at eq₁
      refine ⟨entry (s.logical d.indirect1.toNat) (k - 23), s₁,
        by simp only [DevProg.interp_bind, eq₁, DevProg.interp_pure], settled₁, .inl ?_⟩
      simp only [DiskInode.slotId, direct, if_false, if_pos (show k < 1047 by omega)]
    · rw [if_neg onDevice] at eq₁
      exact ⟨_, s₁, by simp only [DevProg.interp_bind, eq₁, DevProg.interp_pure], settled₁, .inr rfl⟩
  · rw [if_neg level]
    obtain ⟨s₁, eq₁, settled₁⟩ := interp_readBlk sound d.indirect2.toNat_lt
    by_cases onDevice : d.indirect2.toNat < s.dev.disk.count
    · rw [if_pos onDevice] at eq₁
      obtain ⟨s₂, eq₂, settled₂⟩ := interp_readBlk settled₁.sound
        (entry_lt (s.logical d.indirect2.toNat) ((k - 1047) / 1024))
      have settled := settled₁.trans settled₂
      by_cases onDevice₂ : entry (s.logical d.indirect2.toNat) ((k - 1047) / 1024) < s₁.dev.disk.count
      · rw [if_pos onDevice₂] at eq₂
        refine ⟨entry (s₁.logical (entry (s.logical d.indirect2.toNat) ((k - 1047) / 1024)))
          ((k - 1047) % 1024), s₂, by simp only [DevProg.interp_bind, eq₁, eq₂, DevProg.interp_pure],
          settled, .inl ?_⟩
        rw [settled₁.logical]
        simp only [DiskInode.slotId, direct, if_false, if_neg (show ¬ k < 1047 by omega)]
      · rw [if_neg onDevice₂] at eq₂
        exact ⟨_, s₂, by simp only [DevProg.interp_bind, eq₁, eq₂, DevProg.interp_pure], settled,
          .inr rfl⟩
    · rw [if_neg onDevice] at eq₁
      exact ⟨_, s₁, by simp only [DevProg.interp_bind, eq₁, DevProg.interp_pure], settled₁, .inr rfl⟩

/-- The loop of `sync_data`: when it succeeds, the data blocks are on the disk. -/
theorem interp_syncBlocks (sound : s.Sound) (d : DiskInode) {n i : Nat} (bound : i + n ≤ 1048576) :
    ∃ ret s', (d.syncBlocks n i).interp handler s = (ret, s') ∧ Settled s s' ∧
      (ret = .kSuccess → ∀ k, i ≤ k → k < i + n →
        s'.onDisk (d.slotId s.logical (data k)) = s.logical (d.slotId s.logical (data k))) := by
  induction n generalizing s i with
  | zero => exact ⟨_, s, rfl, .refl sound, fun _ k lower upper => by omega⟩
  | succ n ih =>
    obtain ⟨id, s₁, eq₁, settled₁, found⟩ := interp_blockId sound d (show i < 1048576 by omega)
    obtain ⟨ok, s₂, eq₂, settled₂, flushed⟩ := interp_syncBlk settled₁.sound id
    have settled₁₂ := settled₁.trans settled₂
    cases ok with
    | false =>
      refine ⟨.kFail, s₂, ?_, settled₁₂, fun success => by cases success⟩
      simp only [DiskInode.syncBlocks, DevProg.interp_bind, eq₁, eq₂, Bool.false_eq_true, if_false,
        DevProg.interp_pure]
    | true =>
      obtain ⟨ret, s₃, eq₃, settled₃, rest⟩ := ih (i := i + 1) settled₂.sound (by omega)
      refine ⟨ret, s₃, ?_, settled₁₂.trans settled₃, fun success k lower upper => ?_⟩
      · simp only [DiskInode.syncBlocks, DevProg.interp_bind, eq₁, eq₂, if_true, eq₃]
      · rw [settled₁₂.logical] at rest
        by_cases here : k = i
        · subst here
          obtain ⟨onDevice, written⟩ := flushed rfl
          have idEq : id = d.slotId s.logical (data k) := by
            rcases found with found | failed
            · exact found
            · have := settled₁.sound.small
              rw [failed, kFailId] at onDevice
              omega
          rw [← idEq, ← settled₁₂.logical]
          refine settled₃.kept ?_
          rw [written, settled₂.logical]
        · exact rest success k (by omega) (by omega)

/-- The inode at a position, as the programs see it. -/
def inodeAt (D : Nat → Block) (pos : Position) : DiskInode := inodeIn (D pos.blockId) pos.blockOffset

/-- The blocks that `Inode::sync` with metadata writes: that of the inode and the data blocks. -/
def SyncTarget (s : Machine) (pos : Position) (b : Nat) : Prop :=
  b = pos.blockId ∨ ∃ k, k < dataBlocks (inodeAt s.logical pos).size.toNat ∧
    b = (inodeAt s.logical pos).slotId s.logical (data k)

/-- When `Inode::sync` succeeds, the blocks that it writes are on the disk. -/
theorem interp_sync (sound : s.Sound) {pos : Position} (small : pos.blockId < 4294967296) :
    ∃ ret s', (Inode.sync pos true).interp handler s = (ret, s') ∧ Settled s s' ∧
      (ret = .kSuccess → ∀ b, s.SyncTarget pos b → s'.onDisk b = s.logical b) := by
  obtain ⟨s₁, eq₁, settled₁⟩ := interp_readBlk sound small
  by_cases onDevice : pos.blockId < s.dev.disk.count
  · rw [if_pos onDevice] at eq₁
    simp only [SyncTarget]
    generalize hd : inodeAt s.logical pos = d
    have bound := dataBlocks_le d.size.toNat_lt
    obtain ⟨ret, s₂, eq₂, settled₂, flushed⟩ :=
      interp_syncBlocks settled₁.sound d (n := dataBlocks d.size.toNat) (i := 0) (by omega)
    have settled₁₂ := settled₁.trans settled₂
    have read : (readInode pos).interp handler s = (some d, s₁) := by
      simp only [readInode, DevProg.interp_bind, eq₁, DevProg.interp_pure, ← hd, inodeAt]
    rw [settled₁.logical] at flushed
    cases ret with
    | kFail =>
      refine ⟨.kFail, s₂, ?_, settled₁₂, fun success => by cases success⟩
      simp only [Inode.sync, DiskInode.syncData, DevProg.interp_bind, read, eq₂, DevProg.interp_pure]
    | kSuccess =>
      obtain ⟨ok, s₃, eq₃, settled₃, written⟩ := interp_syncBlk settled₂.sound pos.blockId
      refine ⟨if ok then .kSuccess else .kFail, s₃, ?_, settled₁₂.trans settled₃, ?_⟩
      · simp only [Inode.sync, DiskInode.syncData, DevProg.interp_bind, read, eq₂, DevProg.interp_pure,
          Bool.false_eq_true, if_false, if_true, eq₃]
        cases ok <;> rfl
      · cases ok with
        | false => exact fun success => by cases success
        | true =>
          rintro - b (rfl | ⟨k, inside, rfl⟩)
          · rw [(written rfl).2, settled₁₂.logical]
          · have here := flushed rfl k (Nat.zero_le k) (by omega)
            rw [← settled₁₂.logical] at here ⊢
            exact settled₃.kept here
  · rw [if_neg onDevice] at eq₁
    refine ⟨.kFail, s₁, ?_, settled₁, fun success => by cases success⟩
    simp only [Inode.sync, readInode, DevProg.interp_bind, eq₁, DevProg.interp_pure]

/-! ### When everything is cached -/

/-- Block `b` is in the cache. -/
def Cached (s : Machine) (b : Nat) : Prop := s.dev.cache.hashtable b ≠ none

/-- The cache holds the same blocks, and of the disk only blocks in `W` have changed. -/
structure Stays (W : Nat → Prop) (s s' : Machine) : Prop extends Settled s s' where
  hashtable : s'.dev.cache.hashtable = s.dev.cache.hashtable
  kept : ∀ b, ¬ W b → s'.onDisk b = s.onDisk b

variable {W : Nat → Prop}

theorem Stays.refl (sound : s.Sound) : Stays W s s := ⟨.refl sound, rfl, fun _ _ => rfl⟩

theorem Stays.trans (first : Stays W s s') (second : Stays W s' s'') : Stays W s s'' :=
  ⟨first.toSettled.trans second.toSettled, second.hashtable.trans first.hashtable,
    fun b out => (second.kept b out).trans (first.kept b out)⟩

theorem Stays.cached (stays : Stays W s s') {b : Nat} (cached : s.Cached b) : s'.Cached b := by
  rw [Cached, stays.hashtable]
  exact cached

theorem interp_readBlk_hit (sound : s.Sound) {id : Nat} (cached : s.Cached id) :
    ∃ s', (DevProg.readBlk id).interp handler s = (some (s.logical id), s') ∧ Stays W s s' := by
  obtain ⟨used, inv⟩ := sound.inv
  obtain ⟨slot, hashed⟩ := Option.ne_none_iff_exists'.mp cached
  have inRange := (inv.hash id slot hashed).2.2.2
  obtain ⟨dev', used', eq, inv', same, hit⟩ :=
    BlockDevice.read_spec inv (inRange.trans sound.small)
  obtain ⟨hashtable, disk⟩ := hit cached
  refine ⟨{ s with dev := dev' }, ?_, ⟨⟨⟨used', inv'⟩, same.count ▸ sound.small⟩, same⟩, hashtable,
    fun b _ => ?_⟩
  · simp only [DevProg.readBlk, DevProg.interp, handler, serve, eq, if_pos inRange]
    rfl
  · exact congrFun (congrArg RawDisk.blocks disk) b

theorem interp_syncBlk_hit (sound : s.Sound) {id : Nat} (cached : s.Cached id) (listed : W id) :
    ∃ s', (DevProg.syncBlk id).interp handler s = (true, s') ∧ Stays W s s' := by
  obtain ⟨used, inv⟩ := sound.inv
  obtain ⟨ret, dev', eq, inv', same, -, success, hashtable, disk⟩ := BlockDevice.sync_spec inv id
  refine ⟨{ s with dev := dev' }, ?_, ⟨⟨⟨used, inv'⟩, same.count ▸ sound.small⟩, same⟩, hashtable,
    fun b out => disk b fun same => out (same ▸ listed)⟩
  simp only [DevProg.syncBlk, DevProg.interp, handler, serve, eq, Option.map_some, success.mpr cached,
    decide_true]

/-- The blocks of the file are in the cache. -/
def FileCached (s : Machine) (d : DiskInode) : Prop := ∀ x, d.Owns x → s.Cached (d.slotId s.logical x)

theorem interp_blockId_hit (sound : s.Sound) (cached : s.FileCached d) {k : Nat}
    (inside : k < dataBlocks d.size.toNat) :
    ∃ s', (d.blockId k).interp handler s = (d.slotId s.logical (data k), s') ∧ Stays W s s' := by
  have bound := dataBlocks_le d.size.toNat_lt
  rw [DiskInode.blockId, if_neg (by omega)]
  by_cases direct : k < 23
  · rw [if_pos direct, DiskInode.slotId_direct direct]
    exact ⟨s, rfl, .refl sound⟩
  rw [if_neg direct]
  by_cases level : k < 23 + 1024
  · rw [if_pos level]
    have one : d.Owns ind1 := by
      simp only [DiskInode.Owns, Valid]
      omega
    obtain ⟨s₁, eq₁, stays₁⟩ := interp_readBlk_hit (W := W) sound (cached ind1 one)
    simp only [DiskInode.slotId] at eq₁
    refine ⟨s₁, ?_, stays₁⟩
    simp only [DevProg.interp_bind, eq₁, DevProg.interp_pure, DiskInode.slotId, direct, if_false,
      if_pos (show k < 1047 by omega)]
  · rw [if_neg level]
    have two : d.Owns ind2 := by
      simp only [DiskInode.Owns, Valid]
      omega
    have group : d.Owns (second ((k - 1047) / 1024)) := by
      simp only [DiskInode.Owns, Valid]
      omega
    obtain ⟨s₁, eq₁, stays₁⟩ := interp_readBlk_hit (W := W) sound (cached ind2 two)
    obtain ⟨s₂, eq₂, stays₂⟩ :=
      interp_readBlk_hit (W := W) stays₁.sound (stays₁.cached (cached _ group))
    simp only [DiskInode.slotId] at eq₁ eq₂
    refine ⟨s₂, ?_, stays₁.trans stays₂⟩
    simp only [DevProg.interp_bind, eq₁, eq₂, DevProg.interp_pure, DiskInode.slotId, direct, if_false,
      if_neg (show ¬ k < 1047 by omega), stays₁.logical]

theorem FileCached.stays (cached : s.FileCached d) (stays : Stays W s s') : s'.FileCached d := by
  intro x owns
  rw [stays.logical]
  exact stays.cached (cached x owns)

theorem interp_syncBlocks_hit (sound : s.Sound) (cached : s.FileCached d) {n i : Nat}
    (bound : i + n ≤ dataBlocks d.size.toNat)
    (listed : ∀ k, k < dataBlocks d.size.toNat → W (d.slotId s.logical (data k))) :
    ∃ s', (d.syncBlocks n i).interp handler s = (.kSuccess, s') ∧ Stays W s s' := by
  induction n generalizing s i with
  | zero => exact ⟨s, rfl, .refl sound⟩
  | succ n ih =>
    have inside : i < dataBlocks d.size.toNat := by omega
    obtain ⟨s₁, eq₁, stays₁⟩ := interp_blockId_hit (W := W) sound cached inside
    obtain ⟨s₂, eq₂, stays₂⟩ :=
      interp_syncBlk_hit stays₁.sound (stays₁.cached (cached (data i) inside)) (listed i inside)
    have stays₁₂ := stays₁.trans stays₂
    have listed₂ : ∀ k, k < dataBlocks d.size.toNat → W (d.slotId s₂.logical (data k)) := by
      rw [stays₁₂.logical]
      exact listed
    obtain ⟨s₃, eq₃, stays₃⟩ := ih (i := i + 1) stays₂.sound (cached.stays stays₁₂) (by omega) listed₂
    refine ⟨s₃, ?_, stays₁₂.trans stays₃⟩
    simp only [DiskInode.syncBlocks, DevProg.interp_bind, eq₁, eq₂, if_true, eq₃]

/-- With the file in the cache `Inode::sync` succeeds, and the rest of the disk stays. -/
theorem interp_sync_hit (sound : s.Sound) {pos : Position} (here : s.Cached pos.blockId)
    (cached : s.FileCached (inodeAt s.logical pos)) :
    ∃ s', (Inode.sync pos true).interp handler s = (.kSuccess, s') ∧ Stays (s.SyncTarget pos) s s' := by
  have listed : s.SyncTarget pos pos.blockId := .inl rfl
  have listedData : ∀ k, k < dataBlocks (inodeAt s.logical pos).size.toNat →
      s.SyncTarget pos ((inodeAt s.logical pos).slotId s.logical (data k)) :=
    fun k inside => .inr ⟨k, inside, rfl⟩
  generalize s.SyncTarget pos = W at *
  obtain ⟨s₁, eq₁, stays₁⟩ := interp_readBlk_hit (W := W) sound here
  generalize hd : inodeAt s.logical pos = d at *
  have read : (readInode pos).interp handler s = (some d, s₁) := by
    simp only [readInode, DevProg.interp_bind, eq₁, DevProg.interp_pure, ← hd, inodeAt]
  rw [← stays₁.logical] at listedData
  obtain ⟨s₂, eq₂, stays₂⟩ := interp_syncBlocks_hit stays₁.sound (cached.stays stays₁)
    (n := dataBlocks d.size.toNat) (i := 0) (by omega) listedData
  have stays₁₂ := stays₁.trans stays₂
  obtain ⟨s₃, eq₃, stays₃⟩ := interp_syncBlk_hit stays₂.sound (stays₁₂.cached here) listed
  refine ⟨s₃, ?_, stays₁₂.trans stays₃⟩
  simp only [Inode.sync, DiskInode.syncData, DevProg.interp_bind, read, eq₂, DevProg.interp_pure,
    Bool.false_eq_true, if_false, if_true, eq₃]

/-- The index blocks are none of the blocks that `Inode::sync` writes. -/
theorem not_syncTarget {bm : Bitmap} {pos : Position} (segment : bm.Segment s.dev.disk.count)
    (low : pos.blockId < bm.startBlockId) (map : WellMapped bm (inodeAt s.logical pos) s.logical)
    {p : Slot} (owns : (inodeAt s.logical pos).Owns p) (index : p.isIndex = true) :
    ¬ s.SyncTarget pos ((inodeAt s.logical pos).slotId s.logical p) := by
  rintro (same | ⟨k, inside, same⟩)
  · have := (map.used p owns).1.1
    have := segment.after
    omega
  · rw [map.inj p (data k) owns inside same] at index
    cases index

/-! ## What a crash leaves -/

/-- The entries in use of the index blocks are on the disk as they are in the cache. -/
def IndexFlushed (s : Machine) (d : DiskInode) : Prop :=
  ∀ x p, d.Owns x → x.parent = some p →
    entry (s.onDisk (d.slotId s.logical p)) x.index = entry (s.logical (d.slotId s.logical p)) x.index

/-- After a crash in state `s'` the file at `pos` is what it was in state `s`: reading the
inode from the disk and following its pointers on the disk gives the same size, and for
each inner block id the same block with the same data. -/
def Durable (s s' : Machine) (pos : Position) : Prop :=
  (inodeAt s'.onDisk pos).size = (inodeAt s.logical pos).size ∧
    ∀ k, k < dataBlocks (inodeAt s.logical pos).size.toNat →
      (inodeAt s'.onDisk pos).slotId s'.onDisk (data k) =
        (inodeAt s.logical pos).slotId s.logical (data k) ∧
      s'.onDisk ((inodeAt s'.onDisk pos).slotId s'.onDisk (data k)) =
        s.logical ((inodeAt s.logical pos).slotId s.logical (data k))

/-- Index blocks that are on the disk lead to the right blocks, also after write-backs. -/
theorem IndexFlushed.slotId (flushed : s.IndexFlushed d) (settled : Settled s s') (x : Slot)
    (owns : d.Owns x) : d.slotId s'.onDisk x = d.slotId s.logical x := by
  induction x using parent_induction with
  | step x ih =>
    cases h : x.parent with
    | none => exact DiskInode.slotId_root h
    | some p =>
      rw [DiskInode.slotId_child h, DiskInode.slotId_child h, ih p h (closed_valid _ x p h owns)]
      rcases settled.same.disk (d.slotId s.logical p) with kept | written
      · exact (congrArg (fun blk => entry blk x.index) kept).trans (flushed x p owns h)
      · exact congrArg (fun blk => entry blk x.index) written

/-- What is left to show when `Inode::sync` has succeeded. -/
theorem durable_iff {pos : Position} (synced : ∀ b, s.SyncTarget pos b → s'.onDisk b = s.logical b) :
    Durable s s' pos ↔ ∀ k, k < dataBlocks (inodeAt s.logical pos).size.toNat →
      (inodeAt s.logical pos).slotId s'.onDisk (data k) =
        (inodeAt s.logical pos).slotId s.logical (data k) := by
  have same : inodeAt s'.onDisk pos = inodeAt s.logical pos := by
    rw [inodeAt, synced _ (.inl rfl), inodeAt]
  rw [Durable, same]
  refine ⟨fun durable k inside => (durable.2 k inside).1, fun ids => ⟨rfl, fun k inside => ?_⟩⟩
  rw [ids k inside]
  exact ⟨rfl, synced _ (.inr ⟨k, inside, rfl⟩)⟩

end Machine

open Machine ReqProg

/-- What a call of `sb_fsync` with `datasync = 0` on an open file does. -/
theorem runs_sbFsync (fs : SBFileSystem) (uid gid : UInt16) {v : Vfs} {fh : Nat} {pos : Position}
    (isOpen : v.fdManager.get fh = some (some pos)) {s s' : Machine} :
    Runs (InodeReq.on fs uid gid Machine.handler) (v.sbFsync 0 fh) s 0 s' ↔
      (Inode.sync pos true).interp Machine.handler s = (.kSuccess, s') := by
  rw [Vfs.sbFsync, isOpen]
  simp only [Vfs.useInode, VfsProg.sync, runs_bind, runs_call]
  constructor
  · rintro ⟨ret, u, ⟨_, run⟩, runs⟩
    cases ret with
    | kSuccess =>
      obtain ⟨-, rfl⟩ := runs_pure.mp runs
      exact run
    | kFail =>
      obtain ⟨zero, -⟩ := runs_pure.mp runs
      cases zero
  · intro run
    exact ⟨.kSuccess, s', ⟨by simp, run⟩, .done⟩

/-- `fsync` makes a file durable when its index blocks are on the disk already.  That is
needed as well when the file is in the cache, unless the block at `indirect2` is behind. -/
theorem sbFsync_durable (L : Layout) (uid gid : UInt16) {s : Machine} (sound : s.Sound)
    (io : L.areaEnd ≤ s.dev.disk.count) {pos : Position} (slot : SlotInside L.formatted pos) {v : Vfs}
    {fh : Nat} (isOpen : v.fdManager.get fh = some (some pos)) :
    (∀ s', Runs (InodeReq.on L.formatted uid gid Machine.handler) (v.sbFsync 0 fh) s 0 s' →
      s.IndexFlushed (inodeAt s.logical pos) → Durable s s' pos) ∧
    (WellMapped L.formatted.dataBitmap (inodeAt s.logical pos) s.logical →
      s.Cached pos.blockId → s.FileCached (inodeAt s.logical pos) →
      (∀ q, (inodeAt s.logical pos).Owns (second q) →
        entry (s.onDisk (inodeAt s.logical pos).indirect2.toNat) q =
          entry (s.logical (inodeAt s.logical pos).indirect2.toNat) q) →
      ∃ s', Runs (InodeReq.on L.formatted uid gid Machine.handler) (v.sbFsync 0 fh) s 0 s' ∧
        (Durable s s' pos ↔ s.IndexFlushed (inodeAt s.logical pos))) := by
  have segment := L.segment io
  have low := L.slot_below slot
  have small : pos.blockId < 4294967296 := by
    have := segment.onDevice
    have := sound.small
    omega
  obtain ⟨ret, s₁, run, settled, synced⟩ := interp_sync sound small
  constructor
  · intro s' runs flushed
    rw [runs_sbFsync _ _ _ isOpen, run] at runs
    cases runs
    exact (durable_iff (synced rfl)).mpr fun k inside => flushed.slotId settled (data k) inside
  · intro map here cached groups
    obtain ⟨s', run', stays⟩ := interp_sync_hit sound here cached
    refine ⟨s', (runs_sbFsync _ _ _ isOpen).mpr run', ?_⟩
    rw [run] at run'
    cases run'
    have apart := fun p owns => not_syncTarget segment low map (p := p) owns
    rw [durable_iff (synced rfl)]
    generalize inodeAt s.logical pos = d at *
    refine ⟨fun ids => ?_, fun flushed k inside => flushed.slotId settled (data k) inside⟩
    -- the call leaves the index blocks on the disk alone
    have kept : ∀ p, d.Owns p → p.isIndex = true →
        s₁.onDisk (d.slotId s.logical p) = s.onDisk (d.slotId s.logical p) :=
      fun p owns index => stays.kept _ (apart p owns index)
    have parentId : ∀ p, d.Owns p → p.isIndex = true →
        d.slotId s₁.onDisk p = d.slotId s.logical p := by
      intro p owns index
      cases p with
      | data k => cases index
      | ind1 => rfl
      | ind2 => rfl
      | second q =>
        have two := closed_valid _ (second q) ind2 rfl owns
        exact (congrArg (fun blk => entry blk q) (kept ind2 two rfl)).trans (groups q owns)
    intro x p owns parent
    have ownsP := closed_valid _ x p parent owns
    have index := parent_isIndex parent
    cases x with
    | data k =>
      have id := ids k owns
      rw [DiskInode.slotId_child (D := s₁.onDisk) parent, DiskInode.slotId_child (D := s.logical) parent,
        parentId p ownsP index, kept p ownsP index] at id
      exact id
    | ind1 => cases parent
    | ind2 => cases parent
    | second q =>
      cases parent
      exact groups q owns

/-- A disk under a cache that has just been filled by writes to the blocks `0 .. slots - 1`
in this order. -/
def filled (disk : RawDisk) (slots : Nat) (contents : Nat → Block) : Machine where
  dev :=
    { cache :=
        { freeFirst := -1
          lruFirst := slots - 1
          lruLast := 0
          hashtable := fun b => if b < slots then some b else none
          buffer := fun i => (contents i.toNat,
            { status := 1
              prev := if i + 1 < slots then i + 1 else -1
              next := i - 1
              id := i })
          size := slots
          cacheSize := slots * kBlockSize }
      disk }
  clock _ := 0

theorem filled_sound {disk : RawDisk} {slots : Nat} (contents : Nat → Block) (some : 0 < slots)
    (fits : slots ≤ disk.count) (small : disk.count < 4294967296)
    (steady : ∀ n, disk.faults n = false) : (filled disk slots contents).Sound := by
  have hashed : ∀ i : Int, 0 ≤ i → i < slots →
      (filled disk slots contents).dev.cache.hashtable (uint32 i) = .some i := by
    intro i lower upper
    have here : uint32 i = i.toNat := by
      simp only [uint32]
      omega
    simp only [filled, here]
    rw [if_pos (by omega), Int.toNat_of_nonneg lower]
  refine ⟨⟨slots, ⟨by omega, some, steady, ⟨Int.le_refl _, ?_, ?_, ?_⟩, ?_, ?_, ?_, ?_, ?_, ?_⟩, ?_, ?_⟩,
    small⟩
  · simp only [filled, IsLink]
    omega
  · simp only [filled, IsLink]
    omega
  · intro i lower upper
    simp only [filled, IsLink]
    split <;> omega
  · simp [filled]
  · intro i lower upper
    simp only [filled] at upper
    omega
  · intro i lower upper
    simp only [filled] at upper
    omega
  · intro b slot h
    simp only [filled, Option.ite_none_right_eq_some, Option.some.injEq] at h
    obtain ⟨inside, rfl⟩ := h
    refine ⟨by omega, by omega, ?_, inside.trans_le fits⟩
    simp only [filled, uint32]
    omega
  · exact fun slot lower upper _ => hashed slot lower upper
  · intro b slot _ clean
    cases clean
  · exact fun _ => by simp [filled]
  · exact fun slot lower upper => .inl (hashed slot lower upper)

theorem filled_cached {disk : RawDisk} {slots : Nat} {contents : Nat → Block} {b : Nat}
    (inside : b < slots) : (filled disk slots contents).Cached b := by
  simp [Cached, filled, inside]

/-- The blocks of `deepDisk` in a cache of the configured size, over a disk with other content. -/
def deepMachine (old : Nat → Block) : Machine :=
  filled { blankDisk 4194304 with blocks := old } 196608 deepDisk.blocks

theorem deepMachine_sound (old : Nat → Block) : (deepMachine old).Sound :=
  filled_sound _ (by decide) (show 196608 ≤ 4194304 by decide) (show 4194304 < 4294967296 by decide)
    fun _ => rfl

theorem deepMachine_logical {old : Nat → Block} (same : ∀ b, 196608 ≤ b → old b = deepDisk.blocks b) :
    (deepMachine old).logical = deepDisk.blocks := by
  funext b
  simp only [Machine.logical, BlockDevice.logical, deepMachine, filled]
  by_cases inside : b < 196608
  · rw [if_pos inside]
    rfl
  · rw [if_neg inside]
    exact same b (by omega)

/-- Slot 2 of the inode area, where `deepFile` lies. -/
def deepPos : Position := Layout.default.formatted.getDiskInodePos 2

/-- A file system with `deepFile` open under handle 10. -/
def deepVfs : Vfs :=
  { root := ⟨2, 0⟩, pathResolver := .new kPathCacheSize, fdManager := (FDManager.new.open' (some deepPos)).2 }

theorem deepVfs_open : deepVfs.fdManager.get 10 = some (some deepPos) := rfl

section

variable {old : Nat → Block} (same : ∀ b, 196608 ≤ b → old b = deepDisk.blocks b)

include same

theorem deepMachine_inode : inodeAt (deepMachine old).logical deepPos = deepFile := by
  rw [deepMachine_logical same]
  exact deepDisk_inode

theorem deepMachine_slotId (x : Slot) (owns : deepFile.Owns x) :
    deepFile.slotId (deepMachine old).logical x = deepId x := by
  rw [deepMachine_logical same]
  exact deepFile_slotId x owns

theorem deepMachine_cached : (deepMachine old).FileCached deepFile := by
  intro x owns
  rw [deepMachine_slotId same x owns]
  refine filled_cached ?_
  rw [DiskInode.Owns, deepFile_blocks] at owns
  cases x <;> simp only [deepId, Valid] at * <;> omega

end

/-- With its blocks in the cache and on the disk alike, `deepFile` is durable after `fsync`. -/
theorem sbFsync_durable_deepFile : ∃ s',
    Runs (InodeReq.on Layout.default.formatted 0 0 Machine.handler) (deepVfs.sbFsync 0 10)
      (deepMachine deepDisk.blocks) 0 s' ∧
    Durable (deepMachine deepDisk.blocks) s' deepPos := by
  have same : ∀ b, 196608 ≤ b → deepDisk.blocks b = deepDisk.blocks b := fun _ _ => rfl
  have logical := deepMachine_logical same
  have inode := deepMachine_inode same
  have cached := deepMachine_cached same
  have agree : (deepMachine deepDisk.blocks).onDisk = (deepMachine deepDisk.blocks).logical :=
    logical.symm
  have map : WellMapped Layout.default.formatted.dataBitmap
      (inodeAt (deepMachine deepDisk.blocks).logical deepPos) (deepMachine deepDisk.blocks).logical := by
    rw [inode, logical]
    exact deepFile_mapped
  obtain ⟨s', runs, iff⟩ := (sbFsync_durable .default 0 0 (deepMachine_sound deepDisk.blocks)
    deepDisk_device deepFile_slot deepVfs_open).2 map (filled_cached (by decide)) (inode ▸ cached)
    fun q owns => by rw [agree]
  exact ⟨s', runs, iff.mpr fun x p owns parent => by rw [agree]⟩

/-- A file with index blocks of which nothing has reached the disk does not survive a crash
after `fsync`: the pointers of its first index block are lost. -/
theorem sbFsync_loses_index :
    ¬ ∀ (L : Layout) (uid gid : UInt16) (s : Machine), s.Sound → L.areaEnd ≤ s.dev.disk.count →
      ∀ pos, SlotInside L.formatted pos →
      WellMapped L.formatted.dataBitmap (inodeAt s.logical pos) s.logical →
      ∀ (v : Vfs) (fh : Nat), v.fdManager.get fh = some (some pos) →
      ∀ s', Runs (InodeReq.on L.formatted uid gid Machine.handler) (v.sbFsync 0 fh) s 0 s' →
        Durable s s' pos := by
  intro always
  have blank : ∀ b, 196608 ≤ b → (fun _ => Bytes.zero : Nat → Block) b = deepDisk.blocks b := by
    intro b high
    simp only [deepDisk]
    rw [if_neg (by omega), if_neg (by omega), if_neg (by omega), if_neg (by omega), if_neg (by omega)]
  have sound := deepMachine_sound fun _ => Bytes.zero
  have logical := deepMachine_logical blank
  have inode := deepMachine_inode blank
  have ids := deepMachine_slotId blank
  have cached := deepMachine_cached blank
  have here : (deepMachine fun _ => Bytes.zero).Cached deepPos.blockId := filled_cached (by decide)
  have blankDisk : (deepMachine fun _ => Bytes.zero).onDisk = fun _ => Bytes.zero := rfl
  have device : Layout.default.areaEnd ≤ (deepMachine fun _ => Bytes.zero).dev.disk.count := deepDisk_device
  generalize (deepMachine fun _ => Bytes.zero) = s at *
  have map : WellMapped Layout.default.formatted.dataBitmap (inodeAt s.logical deepPos) s.logical := by
    rw [inode, logical]
    exact deepFile_mapped
  obtain ⟨ret, s₁, run, -, synced⟩ := interp_sync sound (show deepPos.blockId < 4294967296 by decide)
  obtain ⟨s', run', stays⟩ := interp_sync_hit sound here (inode ▸ cached)
  rw [run] at run'
  cases run'
  have durable := always .default 0 0 s sound device deepPos deepFile_slot map deepVfs 10 deepVfs_open s₁
    ((runs_sbFsync _ _ _ deepVfs_open).mpr run)
  have one : deepFile.Owns ind1 := by
    rw [DiskInode.Owns, deepFile_blocks]
    exact show 23 < 1049 by decide
  have first : deepFile.Owns (data 23) := by
    rw [DiskInode.Owns, deepFile_blocks]
    exact show 23 < 1049 by decide
  have lost : s₁.onDisk (deepFile.slotId s.logical ind1) = Bytes.zero := by
    have low : deepPos.blockId < Layout.default.formatted.dataBitmap.startBlockId :=
      Layout.default.slot_below deepFile_slot
    have apart := not_syncTarget (Layout.default.segment device) low map (p := ind1) (inode ▸ one) rfl
    rw [inode] at apart
    rw [stays.kept _ apart, blankDisk]
  have id := (durable_iff (synced rfl)).mp durable 23 (inode ▸ first)
  rw [inode, ids (data 23) first, DiskInode.slotId_child (p := ind1) rfl] at id
  rw [show deepFile.slotId s₁.onDisk ind1 = deepFile.slotId s.logical ind1 from rfl, lost] at id
  exact absurd id (by decide)

end Sbfs
