import Sbfs.CacheLinks
import Sbfs.CacheTransparency

/-! # Reads and syncs of the block cache

What a read makes of the cache: a block that is found keeps its slot, and one that is loaded gets a free slot, or the
last one of the LRU list when none is free.  A sync never loads a block.  In the states that the calls of `BlockDevice`
lead to, each slot is free or holds the block that its id names (`runOps_inOrder`). -/

namespace Sbfs

open LinkedList

/-- The invariant of the cache, with the slots of the free chain. -/
structure InOrder (dev : BlockDevice) (free : List Int) : Prop where
  inv : ∃ used, CacheInv dev used
  slots : Slots dev free

section

variable {dev dev' : BlockDevice} {free : List Int} {slot used : Int} {id : Nat}

/-- The free slots are those above the used ones. -/
theorem CacheInv.free_above (inv : CacheInv dev used) (slots : Slots dev free) : ∀ i ∈ free, used ≤ i := by
  refine slots.chain.forall ?_ fun i inside low => ?_
  · rw [inv.free]
    split
    · exact .inr (Int.le_refl _)
    · exact .inl rfl
  · have chain := inv.chain i low (slots.inside i inside).2
    replace chain : dev.cache.links.next i = _ := chain
    rw [chain]
    split
    · exact .inr (by omega)
    · exact .inl rfl

/-- The links of a slot that holds a block do not lead to the free chain. -/
theorem CacheInv.unlinksFree (inv : CacheInv dev used) (slots : Slots dev free)
    (hit : dev.cache.hashtable id = some slot) : dev.cache.UnlinksFree free slot := by
  intro onChain
  obtain ⟨lower, upper, -⟩ := inv.hash id slot hit
  have below := (inv.links.links slot lower upper).1.2
  have above := inv.free_above slots _ onChain
  omega

theorem InOrder.init {cacheSize : Nat} {disk : RawDisk} (capacity : kBlockSize ≤ cacheSize)
    (steady : ∀ n, disk.faults n = false) :
    InOrder (.new cacheSize disk) ((List.range' 0 (cacheSize / kBlockSize)).map fun i : Nat => (i : Int)) :=
  ⟨⟨0, .init capacity steady⟩, .init capacity steady⟩

/-- A block has been found in slot `slot`. -/
structure Found (dev : BlockDevice) (free : List Int) (slot : Int) (dev' : BlockDevice) : Prop where
  order : InOrder dev' free
  same : SameContent dev dev'
  hashtable : dev'.cache.hashtable = dev.cache.hashtable
  last : slot ≠ dev.cache.lruLast → dev'.cache.lruLast = dev.cache.lruLast

/-- Block `id` has been loaded into slot `slot`. -/
structure Loaded (dev : BlockDevice) (free : List Int) (id : Nat) (slot : Int) (dev' : BlockDevice) : Prop where
  order : InOrder dev' free.tail
  same : SameContent dev dev'
  place : free.head? = some slot ∨ free = [] ∧ slot = dev.cache.lruLast
  hashtable : ∀ b, dev'.cache.hashtable b =
    if b = id then some slot else if dev.cache.hashtable b = some slot then none else dev.cache.hashtable b
  last : free = [] → dev'.cache.lruLast = slot
  kept : free ≠ [] → dev.cache.lruLast ≠ -1 → dev'.cache.lruLast = dev.cache.lruLast

/-- A load into a free slot leaves the other blocks where they are. -/
theorem Loaded.hashtable_free (order : InOrder dev free) (loaded : Loaded dev free id slot dev')
    (some : free ≠ []) (b : Nat) : dev'.cache.hashtable b = if b = id then .some slot else dev.cache.hashtable b := by
  have place := loaded.place.resolve_right fun none => some none.1
  rw [loaded.hashtable, if_neg fun held => (order.slots.hash b slot held).2.2.1 (List.mem_of_mem_head? place)]

theorem Accessed.found (order : InOrder dev free) (hit : dev.cache.hashtable id = some slot)
    (accessed : Accessed dev slot dev') (inv : ∃ used, CacheInv dev' used) (same : SameContent dev dev')
    (faults : dev'.disk.faults = dev.disk.faults) : Found dev free slot dev' where
  order := by
    obtain ⟨used, inv₀⟩ := order.inv
    exact ⟨inv, accessed.slots order.slots faults same.count (order.slots.hash id slot hit).2.2.1
      (inv₀.unlinksFree order.slots hit)⟩
  same := same
  hashtable := accessed.hashtable
  last := fun other => by
    obtain ⟨used, inv⟩ := order.inv
    obtain ⟨lower, upper, -⟩ := inv.hash id slot hit
    exact (congrArg Links.last accessed.links).trans (Links.last_touch other (inv.victim (by omega)))

theorem InOrder.run_read (order : InOrder dev free) (small : id < 4294967296) (inRange : id < dev.disk.count) :
    ∃ dev', dev.read id = some (some (dev.logical id), dev') ∧
      ((∃ slot, dev.cache.hashtable id = some slot ∧ Found dev free slot dev') ∨
        dev.cache.hashtable id = none ∧ ∃ slot, Loaded dev free id slot dev') := by
  obtain ⟨used, inv⟩ := order.inv
  obtain ⟨dev', used', read, inv', same, -⟩ := BlockDevice.read_spec inv small
  rw [if_pos inRange] at read
  refine ⟨dev', read, ?_⟩
  cases found : dev.cache.hashtable id with
  -- found: `read_spec` and `run_get_hit` are about the same run
  | some slot =>
    obtain ⟨dev₁, ran, accessed, -, -, disk⟩ := order.slots.run_get_hit found
    have run : dev.read id = some (some (dev.cache.buffer slot).1, dev₁) := by
      simp only [BlockDevice.read, ran, Option.bind_eq_bind, Option.bind_some, Option.pure_def]
    obtain rfl := (Prod.mk.inj (Option.some.inj (read.symm.trans run))).2
    exact .inl ⟨slot, rfl, accessed.found order found ⟨used', inv'⟩ same (by rw [disk])⟩
  | none =>
    -- the block is read from the disk first, which only advances its clock
    have ticked : Slots { dev with disk := dev.disk.tick } free :=
      ⟨order.slots.steady, order.slots.nonempty, order.slots.links, order.slots.chain, order.slots.nodup,
        order.slots.inside, order.slots.hash, order.slots.held, order.slots.victim⟩
    obtain ⟨slot, dev₁, ran, slots', entered, -⟩ := ticked.run_upsert_miss found small inRange (dev.logical id)
    have content : dev.disk.blocks id = dev.logical id := by simp only [BlockDevice.logical, found]
    have run : dev.read id = some (some (dev.logical id), dev₁) := by
      simp only [BlockDevice.read, BlockDevice.get, found, Option.bind_eq_bind, Option.bind_some,
        BlockDevice.readFromDisk, RawDisk.pread, inv.ready inRange, if_true, content, ran, Option.pure_def]
    cases read.symm.trans run
    refine .inr ⟨rfl, slot, ⟨⟨used', inv'⟩, slots'⟩, same, entered.place, entered.hashtable, ?_, fun room some => ?_⟩
    · -- no slot is free: the new block is in the last slot, and stays the last one
      rintro rfl
      obtain rfl := (entered.place.resolve_left fun room => by cases room).2
      exact (congrArg Links.last entered.links).trans Links.last_touch_clear
    · -- a free slot lies above the used ones, and is not the last of the list
      have onChain := List.mem_of_mem_head? (entered.place.resolve_right fun none => room none.1)
      have above := inv.free_above order.slots slot onChain
      have below := inv.links.last.2
      have other : slot ≠ (dev.cache.links.clear (-1) slot).last := by
        show slot ≠ dev.cache.lruLast
        omega
      exact (congrArg Links.last entered.links).trans (Links.last_touch other some)

theorem InOrder.run_sync (order : InOrder dev free) (id : Nat) :
    (∃ slot dev', dev.cache.hashtable id = some slot ∧ dev.sync id = some (.kSuccess, dev') ∧
      Found dev free slot dev') ∨
    dev.cache.hashtable id = none ∧ dev.sync id = some (.kFail, dev) := by
  obtain ⟨used, inv⟩ := order.inv
  cases found : dev.cache.hashtable id with
  | some slot =>
    obtain ⟨ret, dev', sync, inv', same, -⟩ := BlockDevice.sync_spec inv id
    obtain ⟨dev₁, ran, accessed, -, -, wrote⟩ := order.slots.run_sync_hit found
    cases sync.symm.trans ran
    exact .inl ⟨slot, dev', rfl, ran, accessed.found order found ⟨used, inv'⟩ same wrote.faults⟩
  | none => exact .inr ⟨rfl, by simp only [BlockDevice.sync, found]⟩

/-- Every call keeps the cache in order. -/
theorem InOrder.run_op (order : InOrder dev free) {op : DevOp} (inRange : op.InRange dev.disk.count) :
    ∃ out dev' free', op.apply dev = some (out, dev') ∧ InOrder dev' free' ∧ dev'.disk.count = dev.disk.count := by
  obtain ⟨used, inv⟩ := order.inv
  -- `apply_spec` keeps the invariant; what is left is the list of slots
  obtain ⟨out, dev', used', ran, inv', count, -⟩ := apply_spec inv inRange
  refine ⟨out, dev', ?_⟩
  cases op with
  | read b =>
    obtain ⟨dev₁, read, outcome⟩ := order.run_read inRange.2 inRange.1
    simp only [DevOp.apply, read, Option.map_some] at ran ⊢
    cases ran
    obtain ⟨slot, -, found⟩ | ⟨-, slot, loaded⟩ := outcome
    · exact ⟨free, rfl, found.order, count⟩
    · exact ⟨free.tail, rfl, loaded.order, count⟩
  | write b blk =>
    obtain ⟨ret, dev₁, upsert, outcome, -⟩ := order.slots.run_access (.upsert b blk) inRange
    replace upsert : dev.upsert b blk = some (ret, dev₁) := upsert
    simp only [DevOp.apply, BlockDevice.write, upsert, Option.map_some] at ran ⊢
    cases ran
    cases outcome with
    | hit hit slots _ _ => exact ⟨free, rfl, ⟨⟨used', inv'⟩, slots (inv.unlinksFree order.slots hit)⟩, count⟩
    | miss _ noUpsert => exact absurd rfl (noUpsert b blk)
    | enter _ _ slots _ _ => exact ⟨free.tail, rfl, ⟨⟨used', inv'⟩, slots⟩, count⟩
  | sync b =>
    obtain ⟨slot, dev₁, -, sync, found⟩ | ⟨-, sync⟩ := order.run_sync b
    · simp only [DevOp.apply, sync, Option.map_some] at ran ⊢
      cases ran
      exact ⟨free, rfl, found.order, count⟩
    · simp only [DevOp.apply, sync, Option.map_some] at ran ⊢
      cases ran
      exact ⟨free, rfl, order, count⟩
  | syncAll =>
    obtain ⟨ret, disk, sync, -, same, faults, -⟩ := BlockDevice.syncFrom_shape inv.working.toShape dev.cache.size
      (Int.le_refl 0) (by omega) fun b slot hit before => absurd (inv.hash b slot hit).1 (Int.not_le.mpr before)
    replace sync : dev.syncAll = some (ret, { dev with disk }) := sync
    simp only [DevOp.apply, sync, Option.map_some] at ran ⊢
    cases ran
    refine ⟨free, rfl, ⟨⟨used', inv'⟩, ?_⟩, count⟩
    have slots := order.slots
    have count' : disk.count = dev.disk.count := same.count
    -- `sync_all` changes the disk only
    refine ⟨fun n => faults ▸ slots.steady n, slots.nonempty, slots.links, slots.chain, slots.nodup, slots.inside,
      fun b slot hit => ?_, slots.held, slots.victim⟩
    rw [count']
    exact slots.hash b slot hit

/-- The cache is in order in every state that calls lead to. -/
theorem runOps_inOrder {ops : List DevOp} {outs : List DevOut} (order : InOrder dev free)
    (inRange : ∀ op ∈ ops, op.InRange dev.disk.count) (ran : runOps ops dev = some (outs, dev')) :
    ∃ free', InOrder dev' free' ∧ dev'.disk.count = dev.disk.count := by
  induction ops generalizing dev free outs with
  | nil =>
    cases ran
    exact ⟨free, order, rfl⟩
  | cons op ops ih =>
    obtain ⟨inRange, later⟩ := List.forall_mem_cons.mp inRange
    obtain ⟨out, dev₁, free₁, first, order₁, count⟩ := order.run_op inRange
    simp only [runOps, first, Option.bind_eq_bind, Option.bind_some, Option.bind_eq_some_iff] at ran
    obtain ⟨⟨outs', dev₂⟩, rest, last⟩ := ran
    cases last
    obtain ⟨free', order', count'⟩ := ih order₁ (count ▸ later) rest
    exact ⟨free', order', count'.trans count⟩

/-- Blocks that are read while there are free slots are in the cache afterwards, and the others are still there. -/
theorem runOps_reads {ids : List Nat} (order : InOrder dev free)
    (inRange : ∀ id ∈ ids, id < dev.disk.count ∧ id < 4294967296) (room : ids.length ≤ free.length) :
    ∃ outs dev' free', runOps (ids.map .read) dev = some (outs, dev') ∧ InOrder dev' free' ∧
      free.length ≤ free'.length + ids.length ∧ SameContent dev dev' ∧
      ∀ b, dev.cache.hashtable b ≠ none ∨ b ∈ ids → dev'.cache.hashtable b ≠ none := by
  induction ids generalizing dev free with
  | nil =>
    exact ⟨_, dev, free, rfl, order, Nat.le_refl _, .refl dev, fun b cached => cached.resolve_right List.not_mem_nil⟩
  | cons id ids ih =>
    obtain ⟨⟨here, small⟩, later⟩ := List.forall_mem_cons.mp inRange
    rw [List.length_cons] at room
    obtain ⟨dev₁, read, outcome⟩ := order.run_read small here
    obtain ⟨free₁, order₁, less, same, kept⟩ : ∃ free₁, InOrder dev₁ free₁ ∧ free.length ≤ free₁.length + 1 ∧
        SameContent dev dev₁ ∧ ∀ b, dev.cache.hashtable b ≠ none ∨ b = id → dev₁.cache.hashtable b ≠ none := by
      obtain ⟨slot, hit, found⟩ | ⟨miss, slot, loaded⟩ := outcome
      · refine ⟨free, found.order, Nat.le_succ _, found.same, fun b cached => ?_⟩
        rw [found.hashtable]
        obtain cached | rfl := cached
        · exact cached
        · exact ne_of_eq_of_ne hit (Option.some_ne_none slot)
      · -- a free slot is left for it, so that no block is evicted
        have some : free ≠ [] := List.length_pos_iff.mp (by omega)
        refine ⟨free.tail, loaded.order, by rw [List.length_tail]; omega, loaded.same, fun b cached => ?_⟩
        rw [loaded.hashtable_free order some]
        split
        · exact Option.some_ne_none slot
        next other => exact cached.resolve_right other
    obtain ⟨outs, dev', free', ran, order', less', same', kept'⟩ := ih order₁ (same.count ▸ later) (by omega)
    refine ⟨.block (some (dev.logical id)) :: outs, dev', free', ?_, order', by rw [List.length_cons]; omega,
      same.trans same', fun b cached => ?_⟩
    · simp only [List.map_cons, runOps, DevOp.apply, read, Option.map_some, Option.bind_eq_bind, Option.bind_some, ran,
        Option.pure_def]
    · refine kept' b (cached.elim (fun here => .inl (kept b (.inl here))) fun member => ?_)
      obtain rfl | member := List.mem_cons.mp member
      · exact .inl (kept b (.inr rfl))
      · exact .inr member

end

end Sbfs
