import Sbfs.CacheShape

/-! # The operations of the block cache on a disk that may fail

Every specification here is about an arbitrary fault schedule.  An eviction is the one
step that cannot be trusted: `alloc` reports a failed write-back of its victim and
`get_page` does not look at the report, and a slot left behind by a failed fill still
carries the id of the block it never held.  `EvictionSafe` is the condition under which
neither matters, and the specifications of `alloc` and its callers assume it. -/

namespace Sbfs

/-! ## Transfers -/

namespace RawDisk

/-- Every transfer between the two moments went through. -/
structure Through (d d' : RawDisk) : Prop where
  faults : d'.faults = d.faults
  later : d.transfers ≤ d'.transfers
  clear : ∀ n, d.transfers ≤ n → n < d'.transfers → d.faults n = false

variable {d d' d'' : RawDisk} {id : Nat}

theorem Through.refl (d : RawDisk) : Through d d :=
  ⟨rfl, Nat.le_refl _, fun _ lo hi => absurd hi (Nat.not_lt.mpr lo)⟩

theorem Through.trans (first : Through d d') (second : Through d' d'') : Through d d'' where
  faults := second.faults.trans first.faults
  later := Nat.le_trans first.later second.later
  clear n lo hi := by
    by_cases before : n < d'.transfers
    · exact first.clear n lo before
    · rw [← first.faults]
      exact second.clear n (Nat.not_lt.mp before) hi

theorem Through.of_ready (ready : d.ready id = true) (faults : d'.faults = d.faults)
    (transfers : d'.transfers = d.transfers + 1) : Through d d' := by
  simp only [RawDisk.ready, Bool.and_eq_true, Bool.not_eq_true'] at ready
  refine ⟨faults, by omega, fun n lo hi => ?_⟩
  obtain rfl : n = d.transfers := by omega
  exact ready.2

theorem pwrite_of_ready (ready : d.ready id = true) (blk : Block) :
    d.pwrite id blk =
      (.kSuccess, { d.tick with blocks := Function.update d.blocks id blk }) := by
  simp [pwrite, ready]

theorem pwrite_of_not_ready (ready : d.ready id = false) (blk : Block) :
    d.pwrite id blk = (.kFail, d.tick) := by
  simp [pwrite, ready]

/-- A block of the disk that does not move meets a fault. -/
theorem fault_of_not_ready (ready : d.ready id = false) (inRange : id < d.count) :
    d.faults d.transfers = true := by
  simpa [RawDisk.ready, inRange] using ready

end RawDisk

/-! ## Between two operations -/

structure Working (dev : BlockDevice) (used : Int) : Prop extends Shape dev used where
  victim : 0 < used → dev.cache.lruLast ≠ -1

/-- What `alloc` leaves behind: a used slot that belongs to no block. -/
structure Vacant (dev : BlockDevice) (used slot : Int) : Prop extends Working dev used where
  lower : 0 ≤ slot
  upper : slot < used
  unused : (dev.cache.buffer slot).2.isDirty = false
  unhashed : ∀ b, dev.cache.hashtable b ≠ some slot

theorem Working.init {cacheSize : Nat} (capacity : kBlockSize ≤ cacheSize) (disk : RawDisk) :
    Working (.new cacheSize disk) 0 := by
  have nonempty : 0 < cacheSize / 4096 := by
    simp only [kBlockSize] at capacity
    omega
  have nil : IsLink 0 (-1) := ⟨Int.le_refl _, by omega⟩
  have unhashed : ∀ b slot, (BlockDevice.new cacheSize disk).cache.hashtable b ≠ some slot := by
    intro b slot h
    cases h
  refine ⟨⟨Int.le_refl _, nonempty, ⟨?_, nil, nil, ?_⟩, ?_, ?_, fun _ _ _ => rfl,
    fun b slot h => absurd h (unhashed b slot), ?_, fun b slot h => absurd h (unhashed b slot)⟩,
    fun h => absurd h (Int.lt_irrefl _)⟩
  · show (0 : Int) ≤ (cacheSize / 4096 : Nat)
    omega
  · intro i lo hi
    omega
  · show (0 : Int) = if (0 : Int) < (cacheSize / 4096 : Nat) then 0 else -1
    rw [if_pos (by omega)]
  · intro i lo hi
    replace hi : i < (cacheSize / 4096 : Nat) := hi
    show (if i = ((cacheSize / 4096 : Nat) : Int) - 1 then (-1 : Int) else i + 1) =
      if i + 1 < ((cacheSize / 4096 : Nat) : Int) then i + 1 else -1
    split <;> split <;> omega
  · intro slot lo hi
    omega

/-- Every used slot holds the block that its id names. -/
def Owned (dev : BlockDevice) (used : Int) : Prop := ∀ slot, 0 ≤ slot → slot < used → Owns dev slot

/-- The next eviction loses nothing: a dirty victim reaches the disk, and the entry of the
hash table that goes is the victim's own or that of a clean block. -/
structure EvictionSafe (dev : BlockDevice) : Prop where
  written : dev.cache.freeFirst = -1 →
    (dev.cache.buffer dev.cache.lruLast).2.isDirty = true →
      dev.disk.ready (uint32 (dev.cache.buffer dev.cache.lruLast).2.id) = true
  entry : dev.cache.freeFirst = -1 → ∀ slot,
    dev.cache.hashtable (uint32 (dev.cache.buffer dev.cache.lruLast).2.id) = some slot →
      slot = dev.cache.lruLast ∨ (dev.cache.buffer slot).2.isDirty = false

theorem Relinked.owns {dev : BlockDevice} {used slot : Int} {cache : LRUCacheManager}
    (relinked : Relinked used dev.cache cache) (owns : Owns dev slot) :
    Owns { dev with cache } slot := by
  simpa only [Owns, relinked.hashtable, relinked.id] using owns

theorem Vacant.tick {dev : BlockDevice} {used slot : Int} (v : Vacant dev used slot) :
    Vacant { dev with disk := dev.disk.tick } used slot :=
  ⟨⟨v.toShape.tick, v.victim⟩, v.lower, v.upper, v.unused, v.unhashed⟩

/-- A slot that belongs to no block may take any clean entry. -/
theorem Vacant.overwrite {dev : BlockDevice} {used slot : Int} (v : Vacant dev used slot)
    {e : Block × BlockStatus} (isClean : e.2.isDirty = false)
    (prev : e.2.prev = (dev.cache.buffer slot).2.prev)
    (next : e.2.next = (dev.cache.buffer slot).2.next) : Vacant (dev.setSlot slot e) used slot := by
  obtain ⟨prevLink, nextLink⟩ := v.links.links slot v.lower v.upper
  refine ⟨⟨v.toShape.setSlot v.lower v.upper (prev ▸ prevLink) (next ▸ nextLink)
    (fun b h => absurd h (v.unhashed b)) (fun h => ?_) (fun b h => absurd h (v.unhashed b)),
    v.victim⟩, v.lower, v.upper, ?_, v.unhashed⟩
  · rw [isClean] at h
    cases h
  · simpa [BlockDevice.setSlot] using isClean

namespace BlockDevice

variable {dev : BlockDevice} {used slot : Int} {id b : Nat}

/-- Moving a cached block to the front of the list. -/
theorem touch_shape (shape : Shape dev used) (lower : 0 ≤ slot) (upper : slot < used) :
    ∃ cache, dev.cache.touch slot = some cache ∧ Working { dev with cache } used ∧
      SameContent dev { dev with cache } ∧ Relinked used dev.cache cache := by
  obtain ⟨cache, eq, links, relinked, last⟩ := LRUCacheManager.touch_links shape.links lower upper
  exact ⟨cache, eq, ⟨shape.relink links relinked, fun _ => last⟩, relinked.sameContent, relinked⟩

/-! ## Write-back -/

/-- Writing a cached block back: the disk then has its content. -/
theorem pwrite_shape (shape : Shape dev used) (hashed : dev.cache.hashtable b = some slot)
    (ready : dev.disk.ready b = true) :
    ∃ disk, dev.disk.pwrite b (dev.cache.buffer slot).1 = (.kSuccess, disk) ∧
      Shape { dev with disk } used ∧ SameContent dev { dev with disk } ∧
      disk.blocks = Function.update dev.disk.blocks b (dev.cache.buffer slot).1 ∧
      dev.disk.Through disk := by
  refine ⟨_, RawDisk.pwrite_of_ready ready _, shape.withDisk rfl ?_, ⟨?_, rfl, ?_⟩, rfl,
    .of_ready ready rfl rfl⟩
  · intro b' slot' h' isClean
    by_cases same : b' = b
    · subst same
      obtain rfl : slot' = slot := Option.some.inj (h'.symm.trans hashed)
      simp
    · simpa [Function.update_of_ne same] using shape.clean b' slot' h' isClean
  · intro b'
    simp only [logical]
    cases h' : dev.cache.hashtable b' with
    | some slot' => rfl
    | none =>
      have ne : b' ≠ b := by
        rintro rfl
        rw [hashed] at h'
        cases h'
      exact Function.update_of_ne ne _ _
  · intro b'
    by_cases same : b' = b
    · subst same
      exact .inr (by simp [logical, hashed])
    · exact .inl (Function.update_of_ne same _ _)

/-- What reached the disk stays there: a write-back only ever writes logical content. -/
theorem pwrite_flushed (hashed : dev.cache.hashtable b = some slot) {disk : RawDisk}
    (blocks : disk.blocks = Function.update dev.disk.blocks b (dev.cache.buffer slot).1) :
    disk.blocks b = dev.logical b ∧
      ∀ b', dev.disk.blocks b' = dev.logical b' → disk.blocks b' = dev.logical b' := by
  have here : disk.blocks b = dev.logical b := by simp [blocks, logical, hashed]
  refine ⟨here, fun b' flushed => ?_⟩
  by_cases same : b' = b
  · rw [same, here]
  · rw [blocks, Function.update_of_ne same, flushed]

/-- The write-back of a used slot that goes through, if it is made at all. -/
theorem writeBack_shape (shape : Shape dev used) (lower : 0 ≤ slot) (upper : slot < used)
    (ready : (dev.cache.buffer slot).2.isDirty = true →
      dev.disk.ready (uint32 (dev.cache.buffer slot).2.id) = true) :
    ∃ disk, dev.writeBack (uint32 (dev.cache.buffer slot).2.id) slot =
        (.kSuccess, { dev with disk }) ∧
      Shape { dev with disk } used ∧ SameContent dev { dev with disk } ∧
      dev.disk.Through disk ∧
      (∀ b, dev.disk.blocks b = dev.logical b → disk.blocks b = dev.logical b) ∧
      (∀ b, dev.cache.hashtable b = some slot → disk.blocks b = dev.logical b) := by
  cases isDirty : (dev.cache.buffer slot).2.isDirty with
  | true =>
    have hashed := shape.dirty slot lower upper isDirty
    obtain ⟨disk, eq, shape', same, blocks, through⟩ := pwrite_shape shape hashed (ready isDirty)
    obtain ⟨here, kept⟩ := pwrite_flushed hashed blocks
    refine ⟨disk, by simp [writeBack, isDirty, writeToDisk, eq], shape', same, through, kept,
      fun b h => ?_⟩
    rwa [← (shape.hash b slot h).2.2.1]
  | false =>
    refine ⟨dev.disk, by simp [writeBack, isDirty], shape, .refl _, .refl _, fun _ h => h,
      fun b h => ?_⟩
    simp [logical, h, shape.clean b slot h isDirty]

/-- The write-back that fails. -/
theorem writeBack_of_not_ready (isDirty : (dev.cache.buffer slot).2.isDirty = true)
    (ready : dev.disk.ready id = false) :
    dev.writeBack id slot = (.kFail, { dev with disk := dev.disk.tick }) := by
  simp [writeBack, isDirty, writeToDisk, RawDisk.pwrite_of_not_ready ready]

/-! ## Taking a slot -/

/-- `alloc` takes a slot of the free chain. -/
theorem alloc_free (shape : Shape dev used) (room : used < dev.cache.size) :
    ∃ dev', dev.alloc = some (.kSuccess, used, dev') ∧ Vacant dev' (used + 1) used ∧
      SameContent dev dev' ∧ dev'.disk = dev.disk ∧ dev'.cache.hashtable = dev.cache.hashtable ∧
      (Owned dev used → ∀ other, 0 ≤ other → other < used → Owns dev' other) := by
  have nonneg := shape.nonneg
  have isFree : dev.cache.freeFirst = used := by rw [shape.free, if_pos room]
  have unhashed : ∀ b, dev.cache.hashtable b ≠ some used := fun b h =>
    absurd (shape.hash b _ h).2.1 (Int.lt_irrefl _)
  have taken := shape.take room
  have head : SameContent dev
      { dev with cache := { dev.cache with freeFirst := (dev.cache.buffer used).2.next } } :=
    ⟨fun _ => rfl, rfl, fun _ => .inl rfl⟩
  have emptied : SameContent _ (setSlot
      { dev with cache := { dev.cache with freeFirst := (dev.cache.buffer used).2.next } } used
      ((dev.cache.buffer used).1, .init)) := .setSlot fun b h => absurd h (unhashed b)
  obtain ⟨cache, eq, working, same, relinked⟩ := touch_shape taken nonneg (by omega)
  refine ⟨{ dev with cache }, ?_, ⟨working, nonneg, by omega, ?_, fun b => ?_⟩,
    (head.trans emptied).trans same, rfl,
    relinked.hashtable, fun owned other lo hi => relinked.owns ?_⟩
  · simp only [setSlot] at eq
    simp only [alloc, isFree, if_pos (show used ≠ -1 by omega),
      LRUCacheManager.status_of_range nonneg room, Option.bind_eq_bind, Option.bind_some,
      LRUCacheManager.modify, if_pos (And.intro nonneg room), eq, Option.pure_def]
  · refine (relinked.isDirty used).trans ?_
    simp [setSlot]
  · rw [show cache.hashtable = dev.cache.hashtable from relinked.hashtable]
    exact unhashed b
  · simpa only [Owns, setSlot, Function.update_of_ne (show other ≠ used by omega)] using
      owned other lo hi

/-- A victim that is on the disk leaves the hash table and is emptied. -/
theorem evict_shape (shape : Shape dev used) (lower : 0 ≤ slot) (upper : slot < used)
    (idEq : uint32 (dev.cache.buffer slot).2.id = id)
    (entry : ∀ other, dev.cache.hashtable id = some other →
      other = slot ∨ (dev.cache.buffer other).2.isDirty = false)
    (onDisk : dev.cache.hashtable id = some slot →
      (dev.cache.buffer slot).1 = dev.disk.blocks id) :
    Shape ((dev.setHash id none).setSlot slot ((dev.cache.buffer slot).1, .init)) used ∧
      SameContent dev ((dev.setHash id none).setSlot slot ((dev.cache.buffer slot).1, .init)) := by
  have nil : IsLink used (-1) := ⟨Int.le_refl _, by omega⟩
  -- The dirty flag goes first, the key next, and the rest of the status last.
  generalize cleared : dev.setSlot slot ((dev.cache.buffer slot).1,
    { (dev.cache.buffer slot).2 with status := 0 }) = dev₁
  have atSlot : dev₁.cache.buffer slot = ((dev.cache.buffer slot).1,
      { (dev.cache.buffer slot).2 with status := 0 }) := by
    subst cleared
    simp [setSlot]
  have table₁ : dev₁.cache.hashtable = dev.cache.hashtable := by
    subst cleared
    rfl
  have disk₁ : dev₁.disk = dev.disk := by
    subst cleared
    rfl
  have shape₁ : Shape dev₁ used := by
    obtain ⟨prev, next⟩ := shape.links.links slot lower upper
    subst cleared
    refine shape.setSlot lower upper prev next (fun b h => (shape.hash b slot h).2.2.1)
      (fun h => by cases h) (fun b h _ => ?_)
    obtain rfl : id = b := idEq.symm.trans (shape.hash b slot h).2.2.1
    exact onDisk h
  have same₁ : SameContent dev dev₁ := by
    subst cleared
    exact .setSlot fun b _ => rfl
  have clean₁ : ∀ other, dev₁.cache.hashtable id = some other →
      (dev₁.cache.buffer other).2.isDirty = false := by
    intro other h
    by_cases isSlot : other = slot
    · rw [isSlot, atSlot]
      rfl
    · subst cleared
      simpa only [setSlot, Function.update_of_ne isSlot] using (entry other h).resolve_left isSlot
  have shape₂ := shape₁.forget clean₁
  have same₂ : SameContent dev₁ (dev₁.setHash id none) :=
    .forget fun other h => shape₁.clean id other h (clean₁ other h)
  have unhashed : ∀ b, (dev₁.setHash id none).cache.hashtable b ≠ some slot := by
    intro b h
    by_cases same : b = id
    · subst same
      simp [setHash] at h
    · simp only [setHash, Function.update_of_ne same, table₁] at h
      exact same ((shape.hash b slot h).2.2.1.symm.trans idEq)
  have shape₃ := shape₂.setSlot (e := ((dev.cache.buffer slot).1, .init)) lower upper nil nil
    (fun b h => absurd h (unhashed b)) (fun h => by simp at h) (fun b h => absurd h (unhashed b))
  have same₃ : SameContent (dev₁.setHash id none)
      ((dev₁.setHash id none).setSlot slot ((dev.cache.buffer slot).1, .init)) :=
    .setSlot fun b h => absurd h (unhashed b)
  have result : (dev₁.setHash id none).setSlot slot ((dev.cache.buffer slot).1, .init) =
      (dev.setHash id none).setSlot slot ((dev.cache.buffer slot).1, .init) := by
    subst cleared
    simp [setSlot, setHash]
  rw [← result]
  exact ⟨shape₃, (same₁.trans same₂).trans same₃⟩

/-- `alloc` evicts the last slot of the list. -/
theorem alloc_evict (w : Working dev used) (full : dev.cache.size ≤ used) (safe : EvictionSafe dev) :
    ∃ slot dev', dev.alloc = some (.kSuccess, slot, dev') ∧ Vacant dev' used slot ∧
      SameContent dev dev' ∧ dev.disk.Through dev'.disk ∧
      (∀ b, dev.cache.hashtable b = none → dev'.cache.hashtable b = none) ∧
      (Owned dev used → ∀ other, 0 ≤ other → other < used → other ≠ slot → Owns dev' other) := by
  have bound := w.links.bound
  have nonempty := w.nonempty
  have isFree : dev.cache.freeFirst = -1 := by rw [w.free, if_neg (by omega)]
  have present := w.victim (by omega)
  obtain ⟨linkLower, upper⟩ := w.links.last
  have written := safe.written isFree
  have entry := safe.entry isFree
  generalize victimEq : dev.cache.lruLast = slot at *
  have lower : 0 ≤ slot := by omega
  have inside : 0 ≤ slot ∧ slot < dev.cache.size := ⟨lower, by omega⟩
  have status := LRUCacheManager.status_of_range lower inside.2
  obtain ⟨disk, back, shape₁, same₁, through, -, onDisk⟩ :=
    writeBack_shape w.toShape lower upper written
  -- the block is on the disk, so that its key may go from the table
  obtain ⟨shape₂, same₂⟩ := evict_shape shape₁ lower upper rfl entry fun h => by
    show (dev.cache.buffer slot).1 = disk.blocks _
    rw [onDisk _ h, logical, show dev.cache.hashtable _ = some slot from h]
  obtain ⟨cache, eq, working, same₃, relinked⟩ := touch_shape shape₂ lower upper
  have table : ∀ b, cache.hashtable b =
      Function.update dev.cache.hashtable (uint32 (dev.cache.buffer slot).2.id) none b := fun b =>
    congrFun relinked.hashtable b
  refine ⟨slot, { dev with disk, cache }, ?_, ⟨working, lower, upper, ?_, fun b h => ?_⟩,
    (same₁.trans same₂).trans same₃, through, fun b h => ?_, fun owned other lo hi ne => ?_⟩
  · simp only [setSlot, setHash, isFree, victimEq] at eq
    simp only [alloc, isFree, victimEq, status, back, Option.bind_eq_bind, Option.bind_some,
      LRUCacheManager.modify, if_pos inside, if_pos present, Option.pure_def, reduceIte,
      reduceCtorEq, ne_eq, not_true_eq_false, eq]
  · refine (relinked.isDirty slot).trans ?_
    simp [setSlot]
  · simp only [table] at h
    by_cases key : b = uint32 (dev.cache.buffer slot).2.id
    · rw [key, Function.update_self] at h
      cases h
    · rw [Function.update_of_ne key] at h
      exact key (w.hash b slot h).2.2.1.symm
  · simp only [table]
    by_cases key : b = uint32 (dev.cache.buffer slot).2.id
    · rw [key, Function.update_self]
    · rwa [Function.update_of_ne key]
  · -- A slot that owns its block is not led to by the victim's key.
    refine relinked.owns ?_
    have count : disk.count = dev.disk.count := same₁.count
    simp only [Owns, setSlot, setHash, Function.update_of_ne ne, count]
    cases owned other lo hi with
    | inr past => exact .inr past
    | inl hashed =>
      left
      rwa [Function.update_of_ne]
      intro clash
      rw [clash] at hashed
      cases owned slot lower upper with
      | inl own => exact ne (Option.some.inj (hashed.symm.trans own))
      | inr past =>
        have := (w.hash _ other hashed).2.2.2
        omega

/-- `alloc` finds a slot, and what it moves goes through. -/
theorem alloc_shape (w : Working dev used) (safe : EvictionSafe dev) :
    ∃ slot dev' used', dev.alloc = some (.kSuccess, slot, dev') ∧ Vacant dev' used' slot ∧
      SameContent dev dev' ∧ dev.disk.Through dev'.disk ∧
      (∀ b, dev.cache.hashtable b = none → dev'.cache.hashtable b = none) ∧
      (Owned dev used → ∀ other, 0 ≤ other → other < used' → other ≠ slot → Owns dev' other) := by
  by_cases room : used < dev.cache.size
  · obtain ⟨dev', eq, vacant, same, disk, table, owned⟩ := alloc_free w.toShape room
    exact ⟨used, dev', used + 1, eq, vacant, same, disk ▸ .refl _, fun b h => table ▸ h,
      fun own other lo hi ne => owned own other lo (by omega)⟩
  · obtain ⟨slot, dev', eq, rest⟩ := alloc_evict w (by omega) safe
    exact ⟨slot, dev', used, eq, rest⟩

/-! ## Pages -/

/-- `get_page` on a block that is not cached fills a vacant slot from the disk, or leaves it
vacant but for its id. -/
theorem fill_shape (vacant : Vacant dev used slot) (small : id < 4294967296)
    (absent : dev.cache.hashtable id = none) {dev₀ : BlockDevice}
    (miss : dev₀.cache.hashtable id = none) {ret₀ : Ret}
    (alloc : dev₀.alloc = some (ret₀, slot, dev)) :
    ∃ ret dev', dev₀.getPage id = some (ret, slot, dev') ∧ Working dev' used ∧
      SameContent dev dev' ∧ dev'.disk = dev.disk.tick ∧
      (ret = .kSuccess → dev.disk.ready id = true ∧ dev'.cache.hashtable id = some slot) ∧
      (ret = .kFail → dev.disk.ready id = false) ∧
      ((∀ other, 0 ≤ other → other < used → other ≠ slot → Owns dev other) →
        ret = .kSuccess ∨ dev.disk.count ≤ id → Owned dev' used) := by
  have bound := vacant.links.bound
  have upper := vacant.upper
  have inside : 0 ≤ slot ∧ slot < dev.cache.size := ⟨vacant.lower, by omega⟩
  -- The id is written into the slot before the transfer.
  generalize namedEq : dev.setSlot slot ((dev.cache.buffer slot).1,
    { (dev.cache.buffer slot).2 with id := int32 id }) = dev₁
  have vacant₁ : Vacant dev₁ used slot := namedEq ▸ vacant.overwrite vacant.unused rfl rfl
  have same₁ : SameContent dev dev₁ :=
    namedEq ▸ .setSlot fun b h => absurd h (vacant.unhashed b)
  have atSlot : (dev₁.cache.buffer slot).2 = { (dev.cache.buffer slot).2 with id := int32 id } := by
    subst namedEq
    simp [setSlot]
  have modified : (dev.cache.modify slot fun e => (e.1, { e.2 with id := int32 id })) =
      some dev₁.cache := by
    subst namedEq
    simp only [LRUCacheManager.modify, if_pos inside, setSlot]
  have disk₁ : dev₁.disk = dev.disk := by
    subst namedEq
    rfl
  have inside₁ : 0 ≤ slot ∧ slot < dev₁.cache.size := by
    subst namedEq
    exact inside
  have table₁ : dev₁.cache.hashtable = dev.cache.hashtable := by
    subst namedEq
    rfl
  have others : (∀ other, 0 ≤ other → other < used → other ≠ slot → Owns dev other) →
      ∀ other, 0 ≤ other → other < used → other ≠ slot → Owns dev₁ other := by
    intro owned other lo hi ne
    subst namedEq
    simpa only [Owns, setSlot, Function.update_of_ne ne] using owned other lo hi ne
  simp only [getPage, miss, alloc, modified, Option.bind_eq_bind, Option.bind_some,
    readFromDisk, RawDisk.pread]
  cases ready : dev.disk.ready id with
  | false =>
    refine ⟨.kFail, { dev₁ with disk := dev₁.disk.tick }, by simp [disk₁], ?_,
      same₁.trans (.tick _), by rw [disk₁], by simp, by simp, fun owned past other lo hi => ?_⟩
    · exact vacant₁.tick.toWorking
    · by_cases isSlot : other = slot
      · subst isSlot
        refine .inr ?_
        show dev₁.disk.count ≤ uint32 (dev₁.cache.buffer other).2.id
        rw [atSlot, disk₁, uint32_int32 small]
        exact past.resolve_left (by simp)
      · exact others owned other lo hi isSlot
  | true =>
    have inRange : id < dev.disk.count := by
      simp only [RawDisk.ready, Bool.and_eq_true, decide_eq_true_eq] at ready
      exact ready.1
    have vacant₂ : Vacant { dev₁ with disk := dev₁.disk.tick } used slot := vacant₁.tick
    have vacant₃ := vacant₂.overwrite (e := (dev₁.disk.blocks id, (dev₁.cache.buffer slot).2))
      vacant₂.unused rfl rfl
    have same₃ : SameContent { dev₁ with disk := dev₁.disk.tick }
        (setSlot { dev₁ with disk := dev₁.disk.tick } slot
          (dev₁.disk.blocks id, (dev₁.cache.buffer slot).2)) :=
      .setSlot fun b h => absurd h (vacant₂.unhashed b)
    generalize filledEq : ({ dev₁ with disk := dev₁.disk.tick } : BlockDevice).setSlot slot
      (dev₁.disk.blocks id, (dev₁.cache.buffer slot).2) = dev₂ at vacant₃ same₃
    have absent₂ : dev₂.cache.hashtable id = none := by
      subst filledEq
      exact table₁ ▸ absent
    have filled : (dev₂.cache.buffer slot).1 = dev₂.disk.blocks id := by
      subst filledEq
      simp [setSlot, RawDisk.tick]
    have idEq : uint32 (dev₂.cache.buffer slot).2.id = id := by
      subst filledEq
      simp [setSlot, atSlot, uint32_int32 small]
    have inRange₂ : id < dev₂.disk.count := by
      subst filledEq
      simpa [setSlot, RawDisk.tick, disk₁] using inRange
    have disk₂ : dev₂.disk = dev.disk.tick := by
      subst filledEq
      rw [← disk₁]
      rfl
    refine ⟨.kSuccess, dev₂.setHash id (some slot), ?_,
      ⟨vacant₃.toShape.enter vacant₃.lower vacant₃.upper idEq inRange₂ absent₂ filled,
        vacant₃.victim⟩,
      (same₁.trans (.tick _)).trans (same₃.trans (.enter absent₂ filled)), disk₂,
      fun _ => ⟨rfl, by simp [setHash]⟩, by simp, fun owned _ other lo hi => ?_⟩
    · subst filledEq
      simp only [disk₁, if_true, LRUCacheManager.modify, if_pos inside₁, Option.bind_some,
        Option.pure_def, setSlot, setHash]
    · by_cases isSlot : other = slot
      · subst isSlot
        exact .inl (by simp [setHash, idEq])
      · have owns : Owns dev₂ other := by
          subst filledEq
          simp only [Owns, setSlot, Function.update_of_ne isSlot]
          exact others owned other lo hi isSlot
        cases owns with
        | inr past => exact .inr past
        | inl hashed =>
          left
          simp only [setHash]
          rwa [Function.update_of_ne]
          intro clash
          rw [clash, absent₂] at hashed
          cases hashed

/-- `get_page` brings a block into the cache, or changes no content. -/
theorem getPage_shape (w : Working dev used) (small : id < 4294967296)
    (safe : dev.cache.hashtable id = none → EvictionSafe dev) :
    ∃ ret slot dev' used', dev.getPage id = some (ret, slot, dev') ∧ Working dev' used' ∧
      SameContent dev dev' ∧ dev'.disk.faults = dev.disk.faults ∧
      (ret = .kSuccess → dev'.cache.hashtable id = some slot ∧ dev.disk.Through dev'.disk) ∧
      (ret = .kFail → dev.disk.count ≤ id ∨ ∃ n, dev.disk.faults n = true) ∧
      (Owned dev used → ret = .kSuccess ∨ dev.disk.count ≤ id → Owned dev' used') := by
  cases h : dev.cache.hashtable id with
  | some slot =>
    obtain ⟨lower, upper, -, inRange⟩ := w.hash id slot h
    obtain ⟨cache, eq, working, same, relinked⟩ := touch_shape w.toShape lower upper
    refine ⟨.kSuccess, slot, { dev with cache }, used, by simp [getPage, h, eq], working, same, rfl,
      fun _ => ⟨relinked.hashtable ▸ h, .refl _⟩, by simp,
      fun owned _ other lo hi => relinked.owns (owned other lo hi)⟩
  | none =>
    obtain ⟨slot, dev₁, used', eq, vacant, same₁, through, table, owned₁⟩ := alloc_shape w (safe h)
    obtain ⟨ret, dev', fillEq, working, same, disk, success, fail, owned⟩ :=
      fill_shape vacant small (table id h) h eq
    refine ⟨ret, slot, dev', used', fillEq, working, same₁.trans same, ?_, fun isOk => ?_,
      fun isFail => ?_, fun own past => owned (owned₁ own) (same₁.count ▸ past)⟩
    · rw [disk]
      exact through.faults
    · obtain ⟨ready, hashed⟩ := success isOk
      exact ⟨hashed, through.trans (.of_ready ready (by rw [disk]; rfl) (by rw [disk]; rfl))⟩
    · by_cases inRange : id < dev.disk.count
      · right
        exact ⟨_, through.faults ▸ RawDisk.fault_of_not_ready (fail isFail) (by rwa [same₁.count])⟩
      · exact .inl (Nat.not_lt.mp inRange)

/-- `upsert` makes `blk` the logical content of the block, or changes no content. -/
theorem upsert_shape (w : Working dev used) (small : id < 4294967296)
    (safe : dev.cache.hashtable id = none → EvictionSafe dev) (blk : Block) :
    ∃ ret dev' used', dev.upsert id blk = some (ret, dev') ∧ Working dev' used' ∧
      dev'.disk.count = dev.disk.count ∧ dev'.disk.faults = dev.disk.faults ∧
      (∀ b, dev'.disk.blocks b = dev.disk.blocks b ∨ dev'.disk.blocks b = dev.logical b) ∧
      (∀ b, dev'.logical b = if b = id ∧ ret = .kSuccess then blk else dev.logical b) ∧
      (ret = .kSuccess → id < dev.disk.count ∧ dev.disk.Through dev'.disk) ∧
      (ret = .kFail → dev.disk.count ≤ id ∨ ∃ n, dev.disk.faults n = true) ∧
      (Owned dev used → ret = .kSuccess ∨ dev.disk.count ≤ id → Owned dev' used') := by
  obtain ⟨ret, slot, dev₁, used', eq, w₁, same₁, faults, success, fail, owned⟩ :=
    getPage_shape w small safe
  cases ret with
  -- no slot was found, and nothing is stored
  | kFail =>
    refine ⟨.kFail, dev₁, used', by simp [upsert, eq], w₁, same₁.count, faults, same₁.disk,
      fun b => ?_, by simp, fun _ => fail rfl, owned⟩
    rw [if_neg (by simp), same₁.logical b]
  | kSuccess =>
    obtain ⟨hashed, through⟩ := success rfl
    obtain ⟨lower, upper, idEq, inRange⟩ := w₁.hash id slot hashed
    have bound := w₁.links.bound
    have inside : 0 ≤ slot ∧ slot < dev₁.cache.size := ⟨lower, by omega⟩
    generalize stuEq : (if (dev₁.cache.buffer slot).2.isDirty then (dev₁.cache.buffer slot).2
      else (dev₁.cache.buffer slot).2.revDirty) = stu
    have isDirty : stu.isDirty = true := by
      subst stuEq
      cases h : (dev₁.cache.buffer slot).2.isDirty <;> simp [h]
    -- content and dirty bit of the slot change, not its links
    have sameLinks : stu.prev = (dev₁.cache.buffer slot).2.prev ∧
        stu.next = (dev₁.cache.buffer slot).2.next ∧ stu.id = (dev₁.cache.buffer slot).2.id := by
      subst stuEq
      split <;> exact ⟨rfl, rfl, rfl⟩
    obtain ⟨prev, next⟩ := w₁.links.links slot lower upper
    have idStu : uint32 stu.id = id := by rw [sameLinks.2.2, idEq]
    have shape := w₁.toShape.setSlot (e := (blk, stu)) lower upper (sameLinks.1 ▸ prev)
      (sameLinks.2.1 ▸ next) (fun b h => idStu.trans (w₁.toShape.inj hashed h))
      (fun _ => by rw [idStu]; exact hashed) (fun b _ isClean => by simp [isDirty] at isClean)
    refine ⟨.kSuccess, dev₁.setSlot slot (blk, stu), used', ?_, ⟨shape, w₁.victim⟩, same₁.count,
      faults, same₁.disk, fun b => ?_, fun _ => ⟨same₁.count ▸ inRange, through⟩, by simp,
      fun own past other lo hi => ?_⟩
    · simp only [upsert, eq, Option.bind_eq_bind, Option.bind_some, reduceIte, reduceCtorEq,
        LRUCacheManager.modify, if_pos inside, Option.pure_def, stuEq, setSlot]
    · simp only [and_true]
      by_cases isId : b = id
      · subst isId
        simp [logical, setSlot, hashed]
      · rw [if_neg isId, ← same₁.logical b]
        simp only [logical, setSlot]
        cases h : dev₁.cache.hashtable b with
        | none => rfl
        | some other =>
          have ne : other ≠ slot := by
            rintro rfl
            exact isId (w₁.toShape.inj h hashed)
          simp [Function.update_of_ne ne]
    · by_cases isSlot : other = slot
      · subst isSlot
        exact .inl (by simpa [setSlot, idStu] using hashed)
      · simpa only [Owns, setSlot, Function.update_of_ne isSlot] using owned own past other lo hi

/-! ## Reads -/

theorem get_shape (w : Working dev used) (id : Nat) :
    ∃ dev', dev.get id = some ((dev.cache.hashtable id).map fun _ => dev.logical id, dev') ∧
      Working dev' used ∧ SameContent dev dev' ∧ dev'.cache.hashtable = dev.cache.hashtable ∧
      dev'.disk = dev.disk ∧ (Owned dev used → Owned dev' used) := by
  cases h : dev.cache.hashtable id with
  | none => exact ⟨dev, by simp [get, h], w, .refl dev, rfl, rfl, fun owned => owned⟩
  | some slot =>
    obtain ⟨lower, upper, -⟩ := w.hash id slot h
    obtain ⟨cache, eq, working, same, relinked⟩ := touch_shape w.toShape lower upper
    refine ⟨{ dev with cache }, ?_, working, same, relinked.hashtable, rfl,
      fun owned other lo hi => relinked.owns (owned other lo hi)⟩
    simp [get, h, eq, logical, relinked.content]

/-- A read changes no content, and what it returns is the logical content. -/
theorem read_shape (w : Working dev used) (small : id < 4294967296)
    (safe : dev.cache.hashtable id = none → dev.disk.ready id = true →
      EvictionSafe { dev with disk := dev.disk.tick }) :
    ∃ blk dev' used', dev.read id = some (blk, dev') ∧ Working dev' used' ∧
      SameContent dev dev' ∧ dev'.disk.faults = dev.disk.faults ∧
      (∀ c, blk = some c → c = dev.logical id ∧ id < dev.disk.count) ∧
      (blk = none → dev.disk.count ≤ id ∨ ∃ n, dev.disk.faults n = true) ∧
      (dev.cache.hashtable id ≠ none →
        dev'.cache.hashtable = dev.cache.hashtable ∧ dev'.disk = dev.disk) ∧
      (Owned dev used → (∀ n, dev.disk.faults n = false) → Owned dev' used') := by
  obtain ⟨dev₁, getEq, w₁, same₁, hashtable₁, disk₁, owned₁⟩ := get_shape w id
  cases h : dev.cache.hashtable id with
  | some slot =>
    have inRange := (w.hash id slot h).2.2.2
    refine ⟨some (dev.logical id), dev₁, used, by simp [read, getEq, h], w₁, same₁, by rw [disk₁],
      fun c eq => ⟨(Option.some.inj eq).symm, inRange⟩, by simp, fun _ => ⟨hashtable₁, disk₁⟩,
      fun owned _ => owned₁ owned⟩
  | none =>
    have unchanged : dev₁ = dev := by
      simp only [get, h, Option.some.injEq, Prod.mk.injEq] at getEq
      exact getEq.2.symm
    subst unchanged
    generalize tickEq : ({ dev₁ with disk := dev₁.disk.tick } : BlockDevice) = dev₂ at safe
    have w₂ : Working dev₂ used := by
      subst tickEq
      exact ⟨w.toShape.tick, w.victim⟩
    have same₂ : SameContent dev₁ dev₂ := tickEq ▸ .tick dev₁
    have faults₂ : dev₂.disk.faults = dev₁.disk.faults := by
      subst tickEq
      rfl
    have owned₂ : Owned dev₁ used → Owned dev₂ used := by
      subst tickEq
      exact fun owned => owned
    have content : dev₁.disk.blocks id = dev₁.logical id := by simp [logical, h]
    cases ready : dev₁.disk.ready id with
    | false =>
      refine ⟨none, dev₂, used, ?_, w₂, same₂, faults₂, by simp, fun _ => ?_,
        fun hit => absurd rfl hit, fun owned _ => owned₂ owned⟩
      · simp [read, getEq, h, readFromDisk, RawDisk.pread, ready, tickEq]
      · by_cases inRange : id < dev₁.disk.count
        · exact .inr ⟨_, RawDisk.fault_of_not_ready ready inRange⟩
        · exact .inl (Nat.not_lt.mp inRange)
    | true =>
      have inRange : id < dev₁.disk.count := by
        simp only [RawDisk.ready, Bool.and_eq_true, decide_eq_true_eq] at ready
        exact ready.1
      -- The block read is put into the cache; whether that worked is not looked at.
      obtain ⟨ret, dev₃, used', eq, w₃, count₃, faults₃, disk₃, logical₃, -, fail, owned₃⟩ :=
        upsert_shape w₂ small (fun _ => safe h ready) (dev₁.logical id)
      have same₃ : SameContent dev₂ dev₃ := by
        refine ⟨fun b => ?_, count₃, disk₃⟩
        rw [logical₃ b]
        split
        · rename_i both
          rw [both.1, same₂.logical]
        · rfl
      refine ⟨some (dev₁.logical id), dev₃, used', ?_, w₃, same₂.trans same₃,
        faults₃.trans faults₂, fun c eq => ⟨(Option.some.inj eq).symm, inRange⟩, by simp,
        fun hit => absurd rfl hit, fun owned steady => owned₃ (owned₂ owned) ?_⟩
      · simp only [read, getEq, h, Option.map_none, Option.bind_eq_bind, Option.bind_some,
          readFromDisk, RawDisk.pread, ready, if_true, tickEq, eq, Option.pure_def, content]
      · cases ret with
        | kSuccess => exact .inl rfl
        | kFail =>
          right
          cases fail rfl with
          | inl past => exact past
          | inr fault =>
            obtain ⟨n, fault⟩ := fault
            rw [faults₂, steady n] at fault
            cases fault

/-! ## Flushing -/

/-- Clearing the dirty flag of a block that is on the disk. -/
theorem clear_shape (w : Working dev used) (hashed : dev.cache.hashtable id = some slot)
    (onDisk : (dev.cache.buffer slot).1 = dev.disk.blocks id)
    (isDirty : (dev.cache.buffer slot).2.isDirty = true) :
    ∃ dev', dev.cache.modify slot (fun e => (e.1, e.2.revDirty)) = some dev'.cache ∧
      dev'.disk = dev.disk ∧ Working dev' used ∧ SameContent dev dev' ∧
      (dev'.cache.buffer slot).1 = (dev.cache.buffer slot).1 ∧
      dev'.cache.hashtable = dev.cache.hashtable ∧ (Owned dev used → Owned dev' used) := by
  obtain ⟨lower, upper, idEq, -⟩ := w.hash id slot hashed
  have bound := w.links.bound
  obtain ⟨prev, next⟩ := w.links.links slot lower upper
  refine ⟨dev.setSlot slot ((dev.cache.buffer slot).1, (dev.cache.buffer slot).2.revDirty),
    LRUCacheManager.modify_of_range lower (by omega) _, rfl,
    ⟨w.toShape.setSlot lower upper prev next (fun b h => (w.hash b slot h).2.2.1) ?_ ?_, w.victim⟩,
    .setSlot fun b _ => rfl, by simp [setSlot], rfl, fun owned other lo hi => ?_⟩
  · intro still
    simp [isDirty] at still
  · intro b h _
    obtain rfl : id = b := w.toShape.inj hashed h
    exact onDisk
  · by_cases isSlot : other = slot
    · subst isSlot
      simpa [Owns, setSlot, BlockStatus.revDirty] using owned other lo hi
    · simpa only [Owns, setSlot, Function.update_of_ne isSlot] using owned other lo hi

/-- `sync` changes no content if the dirty block reaches the disk, or is already there. -/
theorem sync_shape (w : Working dev used) (id : Nat)
    (safe : ∀ slot, dev.cache.hashtable id = some slot → (dev.cache.buffer slot).2.isDirty = true →
      dev.disk.ready id = true ∨ (dev.cache.buffer slot).1 = dev.disk.blocks id) :
    ∃ ret dev', dev.sync id = some (ret, dev') ∧ Working dev' used ∧ SameContent dev dev' ∧
      dev'.disk.faults = dev.disk.faults ∧ dev'.cache.hashtable = dev.cache.hashtable ∧
      (∀ b, b ≠ id → dev'.disk.blocks b = dev.disk.blocks b) ∧
      (ret = .kSuccess → dev'.disk.blocks id = dev.logical id ∧ id < dev.disk.count ∧
        dev.cache.hashtable id ≠ none ∧ dev.disk.Through dev'.disk) ∧
      (ret = .kFail → dev.cache.hashtable id = none ∨ ∃ n, dev.disk.faults n = true) ∧
      (Owned dev used → Owned dev' used) := by
  cases h : dev.cache.hashtable id with
  | none =>
    exact ⟨.kFail, dev, by simp [sync, h], w, .refl dev, rfl, rfl, fun _ _ => rfl, by simp,
      fun _ => .inl rfl, fun owned => owned⟩
  | some slot =>
    obtain ⟨lower, upper, idEq, inRange⟩ := w.hash id slot h
    obtain ⟨cache, eq, w₁, same₁, relinked⟩ := touch_shape w.toShape lower upper
    have bound := w₁.links.bound
    have inside : 0 ≤ slot ∧ slot < cache.size := ⟨lower, by
      have : used ≤ cache.size := bound
      omega⟩
    have hashed : cache.hashtable id = some slot := relinked.hashtable ▸ h
    have content : (cache.buffer slot).1 = dev.logical id := by
      simp [logical, h, relinked.content]
    have status : cache.status slot = some (cache.buffer slot).2 :=
      LRUCacheManager.status_of_range inside.1 inside.2
    have owned₁ : Owned dev used → Owned { dev with cache } used :=
      fun owned other lo hi => relinked.owns (owned other lo hi)
    cases isDirty : (cache.buffer slot).2.isDirty with
    | false =>
      refine ⟨.kSuccess, { dev with cache }, ?_, w₁, same₁, rfl, relinked.hashtable,
        fun _ _ => rfl, fun _ => ⟨?_, inRange, by simp, .refl _⟩, by simp, owned₁⟩
      · simp [sync, h, eq, status, isDirty]
      · rw [← content]
        exact (w₁.clean id slot hashed isDirty).symm
    | true =>
      -- The flag is cleared first, and then the content goes to the disk.
      cases ready : dev.disk.ready id with
      | false =>
        have onDisk : (cache.buffer slot).1 = dev.disk.blocks id := by
          have := safe slot h ((relinked.isDirty slot).symm.trans isDirty)
          rw [relinked.content]
          simpa [ready] using this
        obtain ⟨dev₂, modified, disk₂, w₂, same₂, -, table₂, owned₂⟩ :=
          clear_shape w₁ hashed onDisk isDirty
        refine ⟨.kFail, { dev₂ with disk := dev₂.disk.tick }, ?_, ⟨w₂.toShape.tick, w₂.victim⟩,
          (same₁.trans same₂).trans (.tick _), ?_, table₂.trans relinked.hashtable, fun b _ => ?_,
          by simp, fun _ => .inr ⟨_, RawDisk.fault_of_not_ready ready inRange⟩,
          fun owned => owned₂ (owned₁ owned)⟩
        · simp [sync, h, eq, status, isDirty, modified, writeToDisk,
            RawDisk.pwrite_of_not_ready ready, disk₂]
        · show dev₂.disk.faults = _
          rw [disk₂]
        · show dev₂.disk.blocks b = _
          rw [disk₂]
      | true =>
        obtain ⟨disk, eq₂, shape₂, same₂, blocks, through⟩ := pwrite_shape w₁.toShape hashed ready
        have here := (pwrite_flushed hashed blocks).1
        obtain ⟨dev₃, modified, disk₃, w₃, same₃, content₃, table₃, owned₃⟩ :=
          clear_shape (Working.mk shape₂ w₁.victim) hashed (by rw [here, logical, hashed]) isDirty
        have logicalEq : ∀ b, logical { dev with cache } b = dev.logical b := same₁.logical
        have whole : ({ cache := dev₃.cache, disk } : BlockDevice) = dev₃ := by
          rw [← show dev₃.disk = disk from disk₃]
        refine ⟨.kSuccess, dev₃, ?_, w₃, (same₁.trans same₂).trans same₃, ?_,
          table₃.trans relinked.hashtable, fun b ne => ?_,
          fun _ => ⟨?_, inRange, by simp, ?_⟩, by simp, fun owned => owned₃ fun other lo hi => ?_⟩
        · simp only [sync, h, eq, Option.bind_eq_bind, Option.bind_some, status, isDirty, if_true,
            modified, writeToDisk, content₃, eq₂, Option.pure_def, whole]
        · rw [disk₃]
          exact through.faults
        · rw [disk₃, blocks, Function.update_of_ne ne]
        · rw [disk₃]
          exact here.trans (logicalEq id)
        · rw [disk₃]
          exact through
        · have count : disk.count = dev.disk.count := same₂.count
          simpa only [Owns, count] using owned₁ owned other lo hi

/-- The loop of `sync_all`: the slots from `i` on are written back in turn, up to the first
one that does not reach the disk. -/
theorem syncFrom_shape (shape : Shape dev used) (n : Nat) {i : Int} (lower : 0 ≤ i)
    (bound : i + n = dev.cache.size)
    (done : ∀ b slot, dev.cache.hashtable b = some slot → slot < i →
      dev.disk.blocks b = dev.logical b) :
    ∃ ret disk, syncFrom n i dev = some (ret, { dev with disk }) ∧ Shape { dev with disk } used ∧
      SameContent dev { dev with disk } ∧ disk.faults = dev.disk.faults ∧
      (ret = .kSuccess → ∀ b, disk.blocks b = dev.logical b) ∧
      (ret = .kFail → ∃ n, dev.disk.faults n = true) := by
  induction n generalizing dev i with
  | zero =>
    refine ⟨.kSuccess, dev.disk, rfl, shape, .refl dev, rfl, fun _ b => ?_, by simp⟩
    have linked := shape.links.bound
    cases h : dev.cache.hashtable b with
    | some slot =>
      have upper := (shape.hash b slot h).2.1
      exact done b slot h (by omega)
    | none => simp [logical, h]
  | succ n ih =>
    have inside : i < dev.cache.size := by omega
    have status := LRUCacheManager.status_of_range lower inside
    by_cases stuck : (dev.cache.buffer i).2.isDirty = true ∧
        dev.disk.ready (uint32 (dev.cache.buffer i).2.id) = false
    · -- the write fails, and the loop ends
      obtain ⟨isDirty, ready⟩ := stuck
      have inUse : i < used := by
        by_contra h
        have := shape.spare i (by omega) inside
        rw [isDirty] at this
        cases this
      have inRange := (shape.hash _ i (shape.dirty i lower inUse isDirty)).2.2.2
      refine ⟨.kFail, dev.disk.tick, ?_, shape.tick, .tick dev, rfl, by simp,
        fun _ => ⟨_, RawDisk.fault_of_not_ready ready inRange⟩⟩
      simp [syncFrom, status, writeBack_of_not_ready isDirty ready]
    · -- the slot is written back, and the loop goes on
      have ready : (dev.cache.buffer i).2.isDirty = true →
          dev.disk.ready (uint32 (dev.cache.buffer i).2.id) = true := by
        intro isDirty
        cases h : dev.disk.ready (uint32 (dev.cache.buffer i).2.id) with
        | true => rfl
        | false => exact absurd ⟨isDirty, h⟩ stuck
      obtain ⟨disk, back, shape₁, same, faults, kept, written⟩ : ∃ disk,
          dev.writeBack (uint32 (dev.cache.buffer i).2.id) i = (.kSuccess, { dev with disk }) ∧
          Shape { dev with disk } used ∧ SameContent dev { dev with disk } ∧
          disk.faults = dev.disk.faults ∧
          (∀ b, dev.disk.blocks b = dev.logical b → disk.blocks b = dev.logical b) ∧
          (∀ b, dev.cache.hashtable b = some i → disk.blocks b = dev.logical b) := by
        by_cases inUse : i < used
        · obtain ⟨disk, back, shape₁, same, through, rest⟩ :=
            writeBack_shape shape lower inUse ready
          exact ⟨disk, back, shape₁, same, through.faults, rest⟩
        · -- A slot of the free chain is clean and holds no block.
          have isDirty := shape.spare i (by omega) inside
          refine ⟨dev.disk, by simp [writeBack, isDirty], shape, .refl _, rfl, fun _ h => h,
            fun b h => ?_⟩
          exact (inUse (shape.hash b i h).2.1).elim
      obtain ⟨ret, disk', eq, shape', same', faults', flushed, fail⟩ :=
        @ih { dev with disk } shape₁ (i + 1) (by omega)
          (by show i + 1 + n = dev.cache.size; omega)
          (by
            intro b slot h upper
            show disk.blocks b = logical { dev with disk } b
            rw [same.logical b]
            rcases Int.lt_or_eq_of_le (Int.lt_add_one_iff.mp upper) with before | rfl
            · exact kept b (done b slot h before)
            · exact written b h)
      refine ⟨ret, disk', by simp [syncFrom, status, back, eq], shape', same.trans same',
        faults'.trans faults, fun isOk b => (flushed isOk b).trans (same.logical b), fun isFail => ?_⟩
      obtain ⟨n, fault⟩ := fail isFail
      exact ⟨n, faults ▸ fault⟩

/-- `sync_all` changes no content; if it succeeds, the disk holds it all. -/
theorem syncAll_shape (w : Working dev used) :
    ∃ ret dev', dev.syncAll = some (ret, dev') ∧ Working dev' used ∧ SameContent dev dev' ∧
      dev'.disk.faults = dev.disk.faults ∧
      (ret = .kSuccess → ∀ b, dev'.disk.blocks b = dev.logical b) ∧
      (ret = .kFail → ∃ n, dev.disk.faults n = true) ∧ (Owned dev used → Owned dev' used) := by
  obtain ⟨ret, disk, eq, shape, same, faults, flushed, fail⟩ :=
    syncFrom_shape w.toShape dev.cache.size (Int.le_refl 0) (by omega) fun b slot h before => by
      have := (w.hash b slot h).1
      omega
  refine ⟨ret, { dev with disk }, eq, ⟨shape, w.victim⟩, same, faults, flushed, fail,
    fun owned other lo hi => ?_⟩
  have count : disk.count = dev.disk.count := same.count
  simpa only [Owns, count] using owned other lo hi

end BlockDevice

end Sbfs
