import Sbfs.CacheOps

/-! # The invariant of the block cache

On a disk without faults no eviction fails and no fill of a block of the disk does, so
every used slot holds the block that its id names, except for the slots left behind by
fills past the end of the disk.  `CacheInv` is the shape of the cache with these two facts. -/

namespace Sbfs

/-- The part of the invariant that holds at every moment; `used` slots have left the
free chain, and the disk has no faults. -/
structure CacheBase (dev : BlockDevice) (used : Int) : Prop where
  nonneg : 0 ≤ used
  nonempty : 0 < dev.cache.size
  steady : ∀ n, dev.disk.faults n = false
  links : LinksOk dev.cache used
  free : dev.cache.freeFirst = if used < dev.cache.size then used else -1
  chain : ∀ i, used ≤ i → i < dev.cache.size →
    (dev.cache.buffer i).2.next = if i + 1 < dev.cache.size then i + 1 else -1
  spare : ∀ i, used ≤ i → i < dev.cache.size → (dev.cache.buffer i).2.isDirty = false
  hash : ∀ b slot, dev.cache.hashtable b = some slot →
    0 ≤ slot ∧ slot < used ∧ uint32 (dev.cache.buffer slot).2.id = b ∧ b < dev.disk.count
  dirty : ∀ slot, 0 ≤ slot → slot < used → (dev.cache.buffer slot).2.isDirty = true →
    dev.cache.hashtable (uint32 (dev.cache.buffer slot).2.id) = some slot
  clean : ∀ b slot, dev.cache.hashtable b = some slot →
    (dev.cache.buffer slot).2.isDirty = false → (dev.cache.buffer slot).1 = dev.disk.blocks b

/-- The invariant between two operations. -/
structure CacheInv (dev : BlockDevice) (used : Int) : Prop extends CacheBase dev used where
  victim : 0 < used → dev.cache.lruLast ≠ -1
  owner : ∀ slot, 0 ≤ slot → slot < used → Owns dev slot

namespace CacheInv

variable {dev dev' : BlockDevice} {used : Int}

theorem working (inv : CacheInv dev used) : Working dev used :=
  ⟨⟨inv.nonneg, inv.nonempty, inv.links, inv.free, inv.chain, inv.spare, inv.hash, inv.dirty,
    inv.clean⟩, inv.victim⟩

theorem of_working (w : Working dev used) (steady : ∀ n, dev.disk.faults n = false)
    (owned : Owned dev used) : CacheInv dev used :=
  ⟨⟨w.nonneg, w.nonempty, steady, w.links, w.free, w.chain, w.spare, w.hash, w.dirty, w.clean⟩,
    w.victim, owned⟩

/-- An operation that keeps the fault schedule keeps the disk free of faults. -/
theorem step (inv : CacheInv dev used) {used' : Int} (w : Working dev' used')
    (faults : dev'.disk.faults = dev.disk.faults) (owned : Owned dev' used') :
    CacheInv dev' used' :=
  .of_working w (fun n => faults ▸ inv.steady n) owned

theorem init {cacheSize : Nat} {disk : RawDisk} (capacity : kBlockSize ≤ cacheSize)
    (steady : ∀ n, disk.faults n = false) : CacheInv (.new cacheSize disk) 0 :=
  .of_working (.init capacity disk) steady fun slot lo hi => by omega

theorem no_fault (inv : CacheInv dev used) : ¬ ∃ n, dev.disk.faults n = true := by
  intro fault
  obtain ⟨n, fault⟩ := fault
  rw [inv.steady n] at fault
  cases fault

theorem ready (inv : CacheInv dev used) {b : Nat} (inRange : b < dev.disk.count) :
    dev.disk.ready b = true := by
  simp [RawDisk.ready, inRange, inv.steady]

theorem tick (inv : CacheInv dev used) : CacheInv { dev with disk := dev.disk.tick } used :=
  .of_working ⟨inv.working.toShape.tick, inv.victim⟩ inv.steady inv.owner

/-- A victim that owns its block is the one slot that its key leads to. -/
theorem evictionSafe (inv : CacheInv dev used) : EvictionSafe dev := by
  have full : dev.cache.freeFirst = -1 → 0 ≤ dev.cache.lruLast ∧ dev.cache.lruLast < used := by
    intro isFree
    have nonneg := inv.nonneg
    have nonempty := inv.nonempty
    have free := inv.free
    have inUse : 0 < used := by
      split at free <;> omega
    have present := inv.victim inUse
    obtain ⟨lower, upper⟩ := inv.links.last
    omega
  refine ⟨fun isFree isDirty => ?_, fun isFree slot hashed => ?_⟩
  · obtain ⟨lower, upper⟩ := full isFree
    exact inv.ready (inv.hash _ _ (inv.dirty _ lower upper isDirty)).2.2.2
  · obtain ⟨lower, upper⟩ := full isFree
    cases inv.owner _ lower upper with
    | inl own => exact .inl (Option.some.inj (hashed.symm.trans own))
    | inr past =>
      have := (inv.hash _ slot hashed).2.2.2
      omega

end CacheInv

/-! ## The operations -/

namespace BlockDevice

variable {dev : BlockDevice} {used : Int}

/-- `upsert` makes `blk` the logical content of the block. -/
theorem upsert_spec (inv : CacheInv dev used) {id : Nat} (small : id < 4294967296) (blk : Block) :
    ∃ dev' used', dev.upsert id blk =
        some (if id < dev.disk.count then .kSuccess else .kFail, dev') ∧
      CacheInv dev' used' ∧ dev'.disk.count = dev.disk.count ∧
      (∀ b, dev'.logical b = if b = id ∧ id < dev.disk.count then blk else dev.logical b) ∧
      ∀ b, dev'.disk.blocks b = dev.disk.blocks b ∨ dev'.disk.blocks b = dev.logical b := by
  obtain ⟨ret, dev', used', eq, w, count, faults, disk, logical, success, fail, owned⟩ :=
    upsert_shape inv.working small (fun _ => inv.evictionSafe) blk
  cases ret with
  | kSuccess =>
    have inRange := (success rfl).1
    refine ⟨dev', used', by rw [eq, if_pos inRange], inv.step w faults (owned inv.owner (.inl rfl)),
      count, fun b => ?_, disk⟩
    simpa [inRange] using logical b
  | kFail =>
    have past := (fail rfl).resolve_right inv.no_fault
    have outside : ¬ id < dev.disk.count := Nat.not_lt.mpr past
    refine ⟨dev', used', by rw [eq, if_neg outside], inv.step w faults (owned inv.owner (.inr past)),
      count, fun b => ?_, disk⟩
    simpa [outside] using logical b

/-- A read of a block of the disk returns its logical content; a hit moves no block. -/
theorem read_spec (inv : CacheInv dev used) {id : Nat} (small : id < 4294967296) :
    ∃ dev' used', dev.read id =
        some (if id < dev.disk.count then some (dev.logical id) else none, dev') ∧
      CacheInv dev' used' ∧ SameContent dev dev' ∧ (dev.cache.hashtable id ≠ none →
        dev'.cache.hashtable = dev.cache.hashtable ∧ dev'.disk = dev.disk) := by
  obtain ⟨blk, dev', used', eq, w, same, faults, found, missing, hit, owned⟩ :=
    read_shape inv.working small fun _ _ => inv.tick.evictionSafe
  refine ⟨dev', used', ?_, inv.step w faults (owned inv.owner inv.steady), same, hit⟩
  rw [eq]
  cases blk with
  | some c =>
    obtain ⟨content, inRange⟩ := found c rfl
    rw [if_pos inRange, content]
  | none =>
    have past := (missing rfl).resolve_right inv.no_fault
    rw [if_neg (Nat.not_lt.mpr past)]

/-- `sync` succeeds for a cached block only, and leaves its logical content on the disk. -/
theorem sync_spec (inv : CacheInv dev used) (id : Nat) :
    ∃ ret dev', dev.sync id = some (ret, dev') ∧ CacheInv dev' used ∧ SameContent dev dev' ∧
      (ret = .kSuccess → dev'.disk.blocks id = dev.logical id) ∧
      (ret = .kSuccess ↔ dev.cache.hashtable id ≠ none) ∧
      dev'.cache.hashtable = dev.cache.hashtable ∧
      ∀ b, b ≠ id → dev'.disk.blocks b = dev.disk.blocks b := by
  obtain ⟨ret, dev', eq, w, same, faults, table, others, success, fail, owned⟩ :=
    sync_shape inv.working id fun slot hashed _ =>
      .inl (inv.ready (inv.hash id slot hashed).2.2.2)
  refine ⟨ret, dev', eq, inv.step w faults (owned inv.owner), same, fun isOk => (success isOk).1,
    ?_, table, others⟩
  cases ret with
  | kSuccess => exact ⟨fun _ => (success rfl).2.2.1, fun _ => rfl⟩
  | kFail =>
    have absent := (fail rfl).resolve_right inv.no_fault
    simp [absent]

/-- After `sync_all` the disk holds the logical content of every block. -/
theorem syncAll_spec (inv : CacheInv dev used) :
    ∃ dev', dev.syncAll = some (.kSuccess, dev') ∧ CacheInv dev' used ∧ SameContent dev dev' ∧
      ∀ b, dev'.disk.blocks b = dev.logical b := by
  obtain ⟨ret, dev', eq, w, same, faults, flushed, fail, owned⟩ := syncAll_shape inv.working
  cases ret with
  | kSuccess => exact ⟨dev', eq, inv.step w faults (owned inv.owner), same, flushed rfl⟩
  | kFail => exact absurd (fail rfl) inv.no_fault

end BlockDevice

end Sbfs
