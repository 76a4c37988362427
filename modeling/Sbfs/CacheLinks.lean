import Sbfs.CacheOps
import Sbfs.Lib.LinkedList

/-! # The links of the block cache

The recency list of `LRUCacheManager` is a doubly linked list in the slots: `LRU_remove` and
`LRU_add` are `unlink` and `push`.  The free chain uses the same `next` fields, so an
operation keeps it only if the slots that it links are not on the chain. -/

namespace Sbfs

open LinkedList

namespace LRUCacheManager

variable {c c' : LRUCacheManager} {slot z v : Int} {f : Block × BlockStatus → Block × BlockStatus}

/-- The recency list. -/
def links (c : LRUCacheManager) : Links Int where
  first := c.lruFirst
  last := c.lruLast
  prev := fun i => (c.buffer i).2.prev
  next := fun i => (c.buffer i).2.next

theorem modify_eq_some : c.modify slot f = some c' ↔ (0 ≤ slot ∧ slot < c.size) ∧
    c' = { c with buffer := Function.update c.buffer slot (f (c.buffer slot)) } := by
  rw [modify]
  split
  next inside => rw [Option.some.injEq, eq_comm, and_iff_right inside]
  next outside => exact iff_of_false (fun none => by cases none) fun both => outside both.1

theorem links_modify (ran : c.modify slot f = some c') : c'.links = { c.links with
    prev := Function.update c.links.prev slot (f (c.buffer slot)).2.prev
    next := Function.update c.links.next slot (f (c.buffer slot)).2.next } := by
  obtain ⟨-, rfl⟩ := modify_eq_some.mp ran
  rw [links, Links.mk.injEq]
  refine ⟨rfl, rfl, funext fun i => ?_, funext fun i => ?_⟩
  · exact Function.apply_update (fun _ (e : Block × BlockStatus) => e.2.prev) c.buffer slot _ i
  · exact Function.apply_update (fun _ (e : Block × BlockStatus) => e.2.next) c.buffer slot _ i

theorem links_setPrev (ran : c.modifyLinked z (setPrev v) = some c') : c'.links = { c.links with
    prev := if z = -1 then c.links.prev else Function.update c.links.prev z v } := by
  rw [modifyLinked] at ran
  split at ran
  next present =>
    rw [links_modify ran, if_neg present, setPrev, Links.mk.injEq]
    exact ⟨rfl, rfl, rfl, Function.update_eq_self z c.links.next⟩
  next none =>
    cases ran
    rw [if_pos (not_not.mp none)]

theorem links_setNext (ran : c.modifyLinked z (setNext v) = some c') : c'.links = { c.links with
    next := if z = -1 then c.links.next else Function.update c.links.next z v } := by
  rw [modifyLinked] at ran
  split at ran
  next present =>
    rw [links_modify ran, if_neg present, setNext, Links.mk.injEq]
    exact ⟨rfl, rfl, Function.update_eq_self z c.links.prev, rfl⟩
  next none =>
    cases ran
    rw [if_pos (not_not.mp none)]

theorem status_eq_some {stu : BlockStatus} (ran : c.status slot = some stu) : (c.buffer slot).2 = stu := by
  rw [status] at ran
  split at ran
  · exact Option.some.inj ran
  · cases ran

/-- `LRU_remove` unlinks the slot. -/
theorem links_lruRemove (ran : c.lruRemove slot = some c') : c'.links = c.links.unlink (-1) slot := by
  simp only [lruRemove, Option.bind_eq_bind, Option.bind_eq_some_iff] at ran
  obtain ⟨stu, here, c₂, ran₂, stu₂, here₂, c₃, ran₃, ran₄⟩ := ran
  obtain rfl := status_eq_some here
  obtain rfl := status_eq_some here₂
  have links₂ := links_setPrev ran₂
  have links₃ := links_setNext ran₃
  -- the neighbour may be the slot itself, and is then given the link that it has
  have prev : (c₂.buffer slot).2.prev = c.links.prev slot := by
    have same := congrFun (congrArg Links.prev links₂) slot
    refine same.trans ?_
    dsimp only
    split
    · rfl
    · exact Function.update_apply .. |>.trans (by split <;> rfl)
  have next : (c₂.buffer slot).2.next = c.links.next slot := congrFun (congrArg Links.next links₂) slot
  rw [prev, next] at links₃
  rw [links_modify ran₄, links₃, links₂]
  rfl

/-- `LRU_add` puts the slot at the front. -/
theorem links_lruAdd (ran : c.lruAdd slot = some c') : c'.links = c.links.push (-1) slot := by
  simp only [lruAdd, Option.bind_eq_bind, Option.bind_eq_some_iff] at ran
  obtain ⟨c₁, ran₁, c₂, ran₂, last⟩ := ran
  have links₁ := links_modify ran₁
  have links₂ := links_setPrev ran₂
  have first : c₁.lruFirst = c.lruFirst := congrArg Links.first links₁
  rw [links₁, first] at links₂
  have lruLast : c₂.lruLast = c.lruLast := congrArg Links.last links₂
  cases last
  have prev : c₂.links.prev = _ := congrArg Links.prev links₂
  have next : c₂.links.next = _ := congrArg Links.next links₂
  rw [links, Links.mk.injEq]
  refine ⟨rfl, ?_, prev, next⟩
  rw [lruLast]
  rfl

theorem links_touch (ran : c.touch slot = some c') :
    c'.links = (c.links.unlink (-1) slot).push (-1) slot := by
  simp only [touch, Option.bind_eq_bind, Option.bind_eq_some_iff] at ran
  obtain ⟨c₁, ran₁, ran₂⟩ := ran
  rw [links_lruAdd ran₂, links_lruRemove ran₁]

/-! ## Taking a slot -/

/-- What `alloc` makes of a slot: no flags, no links, and then the first place of the list. -/
structure Cleared (c : LRUCacheManager) (slot : Int) (c' : LRUCacheManager) : Prop where
  size : c'.size = c.size
  content : ∀ i, (c'.buffer i).1 = (c.buffer i).1
  clean : (c'.buffer slot).2.isDirty = false
  status : ∀ i, i ≠ slot → (c'.buffer i).2.status = (c.buffer i).2.status
  id : ∀ i, i ≠ slot → (c'.buffer i).2.id = (c.buffer i).2.id
  links : c'.links = ((c.links.clear (-1) slot).unlink (-1) slot).push (-1) slot
  linksOk : LinksOk c' c.size
  last : c'.lruLast ≠ -1

theorem run_clear (ok : LinksOk c c.size) (lower : 0 ≤ slot) (upper : slot < c.size) :
    ∃ c₁ c', (c.modify slot fun e => (e.1, .init)) = some c₁ ∧ c₁.touch slot = some c' ∧ Cleared c slot c' ∧
      c'.freeFirst = c.freeFirst ∧ c'.hashtable = c.hashtable := by
  have none : IsLink c.size (-1) := ⟨by omega, by omega⟩
  have ran := modify_of_range lower upper fun e => (e.1, BlockStatus.init)
  have links₁ := links_modify ran
  generalize ({ c with buffer := Function.update c.buffer slot ((c.buffer slot).1, .init) } : LRUCacheManager) = c₁ at ran links₁
  obtain ⟨-, is⟩ := modify_eq_some.mp ran
  have same : ∀ i, i ≠ slot → c₁.buffer i = c.buffer i := fun i other => by
    rw [is]
    exact Function.update_of_ne other _ _
  have here : c₁.buffer slot = ((c.buffer slot).1, .init) := by
    rw [is]
    exact Function.update_self ..
  have ok₁ : LinksOk c₁ c.size := by
    have first : c₁.lruFirst = c.lruFirst := congrArg Links.first links₁
    have last : c₁.lruLast = c.lruLast := congrArg Links.last links₁
    refine ⟨is ▸ ok.bound, first ▸ ok.first, last ▸ ok.last, fun i low high => ?_⟩
    by_cases at' : i = slot
    · rw [at', here]
      exact ⟨none, none⟩
    · rw [same i at']
      exact ok.links i low high
  obtain ⟨c', ran', ok', relinked, last⟩ := touch_links ok₁ lower upper
  refine ⟨c₁, c', ran, ran', ?_, by rw [relinked.freeFirst, is], by rw [relinked.hashtable, is]⟩
  have size : c₁.size = c.size := by rw [is]
  constructor
  case size => rw [relinked.size, size]
  case content =>
    intro i
    rw [relinked.content]
    by_cases at' : i = slot
    · rw [at', here]
    · rw [same i at']
  case clean => rw [relinked.isDirty, here, BlockStatus.isDirty_init]
  case status => exact fun i other => by rw [relinked.status, same i other]
  case id => exact fun i other => by rw [relinked.id, same i other]
  case links => rw [links_touch ran', links₁]; rfl
  case linksOk => exact ok'
  case last => exact last

end LRUCacheManager

/-! ## Slots -/

/-- Every slot is on the free chain or holds the one block that its id names. -/
structure Slots (dev : BlockDevice) (free : List Int) : Prop where
  steady : ∀ n, dev.disk.faults n = false
  nonempty : 0 < dev.cache.size
  links : LinksOk dev.cache dev.cache.size
  chain : Follows (-1) dev.cache.links.next dev.cache.freeFirst free
  nodup : free.Nodup
  inside : ∀ slot ∈ free, 0 ≤ slot ∧ slot < dev.cache.size
  hash : ∀ (b : Nat) (slot : Int), dev.cache.hashtable b = some slot → 0 ≤ slot ∧ slot < dev.cache.size ∧ slot ∉ free ∧
    uint32 (dev.cache.buffer slot).2.id = b ∧ b < dev.disk.count
  held : ∀ slot : Int, 0 ≤ slot → slot < dev.cache.size → slot ∉ free →
    dev.cache.hashtable (uint32 (dev.cache.buffer slot).2.id) = some slot
  victim : free = [] → dev.cache.lruLast ≠ -1

namespace Slots

variable {dev : BlockDevice} {free : List Int} {slot : Int}

theorem free_eq_nil (slots : Slots dev free) : free = [] ↔ dev.cache.freeFirst = -1 :=
  slots.chain.eq_nil_iff

/-- Blocks that share a slot are the same block. -/
theorem inj (slots : Slots dev free) {b b' : Nat} (here : dev.cache.hashtable b = some slot)
    (there : dev.cache.hashtable b' = some slot) : b = b' := by
  rw [← (slots.hash b slot here).2.2.2.1, (slots.hash b' slot there).2.2.2.1]

theorem ready (slots : Slots dev free) {b : Nat} (inRange : b < dev.disk.count) : dev.disk.ready b = true := by
  simp only [RawDisk.ready, inRange, slots.steady, decide_true, Bool.not_false, Bool.and_self]

end Slots

/-! ### Transfers -/

/-- The blocks in `writes` have been written, one after the other, and `reads` blocks read. -/
structure Transferred (writes : List (Nat × Block)) (reads : Nat) (d d' : RawDisk) : Prop where
  faults : d'.faults = d.faults
  count : d'.count = d.count
  blocks : d'.blocks = writes.foldl (fun blocks w => Function.update blocks w.1 w.2) d.blocks
  transfers : d'.transfers = d.transfers + writes.length + reads

theorem Transferred.refl (d : RawDisk) : Transferred [] 0 d d := ⟨rfl, rfl, rfl, rfl⟩

theorem Transferred.trans {writes writes' : List (Nat × Block)} {reads reads' : Nat} {d d' d'' : RawDisk}
    (first : Transferred writes reads d d') (second : Transferred writes' reads' d' d'') :
    Transferred (writes ++ writes') (reads + reads') d d'' where
  faults := second.faults.trans first.faults
  count := second.count.trans first.count
  blocks := by rw [second.blocks, first.blocks, List.foldl_append]
  transfers := by
    rw [second.transfers, first.transfers, List.length_append]
    omega

/-- The write that a dirty slot is in for. -/
def BlockDevice.dirtyWrite (dev : BlockDevice) (id : Nat) (slot : Int) : List (Nat × Block) :=
  if (dev.cache.buffer slot).2.isDirty then [(id, (dev.cache.buffer slot).1)] else []

theorem BlockDevice.run_writeBack (dev : BlockDevice) (id : Nat) (slot : Int)
    (ready : (dev.cache.buffer slot).2.isDirty = true → dev.disk.ready id = true) :
    ∃ disk : RawDisk, dev.writeBack id slot = (.kSuccess, { dev with disk }) ∧
      Transferred (dev.dirtyWrite id slot) 0 dev.disk disk := by
  rw [writeBack, dirtyWrite]
  split
  next dirty =>
    rw [writeToDisk, RawDisk.pwrite_of_ready (ready dirty)]
    exact ⟨_, rfl, rfl, rfl, rfl, rfl⟩
  next => exact ⟨dev.disk, rfl, .refl _⟩

/-! ### A cached block -/

/-- Slot `slot` has been accessed, and may have another content and other flags. -/
structure Accessed (dev : BlockDevice) (slot : Int) (dev' : BlockDevice) : Prop where
  freeFirst : dev'.cache.freeFirst = dev.cache.freeFirst
  hashtable : dev'.cache.hashtable = dev.cache.hashtable
  size : dev'.cache.size = dev.cache.size
  id : ∀ i, (dev'.cache.buffer i).2.id = (dev.cache.buffer i).2.id
  content : ∀ i, i ≠ slot → (dev'.cache.buffer i).1 = (dev.cache.buffer i).1
  dirty : ∀ i, i ≠ slot → (dev'.cache.buffer i).2.isDirty = (dev.cache.buffer i).2.isDirty
  links : dev'.cache.links = (dev.cache.links.unlink (-1) slot).push (-1) slot
  linksOk : LinksOk dev'.cache dev.cache.size
  last : dev'.cache.lruLast ≠ -1

/-- If the slot before `slot` in the recency list is free, unlinking `slot` does not change its `next`. -/
def LRUCacheManager.UnlinksFree (c : LRUCacheManager) (free : List Int) (slot : Int) : Prop :=
  (c.buffer slot).2.prev ∈ free → (c.buffer (c.buffer slot).2.prev).2.next = (c.buffer slot).2.next

section

variable {dev dev' : BlockDevice} {free : List Int} {slot : Int} {id : Nat}

/-- Another content and other flags in a slot. -/
theorem Accessed.setEntry (accessed : Accessed dev slot dev') {f : Block × BlockStatus → Block × BlockStatus}
    (prev : (f (dev'.cache.buffer slot)).2.prev = (dev'.cache.buffer slot).2.prev)
    (next : (f (dev'.cache.buffer slot)).2.next = (dev'.cache.buffer slot).2.next)
    (same : (f (dev'.cache.buffer slot)).2.id = (dev'.cache.buffer slot).2.id) {cache : LRUCacheManager}
    (ran : dev'.cache.modify slot f = some cache) (disk : RawDisk) : Accessed dev slot { cache, disk } := by
  have links : cache.links = dev'.cache.links := by
    rw [LRUCacheManager.links_modify ran, prev, next, LRUCacheManager.links, Links.mk.injEq]
    exact ⟨rfl, rfl, Function.update_eq_self slot _, Function.update_eq_self slot _⟩
  obtain ⟨-, is⟩ := LRUCacheManager.modify_eq_some.mp ran
  have others : ∀ i, i ≠ slot → cache.buffer i = dev'.cache.buffer i := fun i other => by
    rw [is]
    exact Function.update_of_ne other _ _
  constructor
  case freeFirst => exact is ▸ accessed.freeFirst
  case hashtable => exact is ▸ accessed.hashtable
  case size => exact is ▸ accessed.size
  case id =>
    intro i
    rw [← accessed.id]
    by_cases at' : i = slot
    · rw [at', is]
      have here : Function.update dev'.cache.buffer slot (f (dev'.cache.buffer slot)) slot = f (dev'.cache.buffer slot) :=
        Function.update_self ..
      dsimp only
      rw [here, same]
    · rw [others i at']
  case content => exact fun i other => by rw [others i other, accessed.content i other]
  case dirty => exact fun i other => by rw [others i other, accessed.dirty i other]
  case links => exact links.trans accessed.links
  case linksOk =>
    have ok := accessed.linksOk
    have prevs := congrArg Links.prev links
    have nexts := congrArg Links.next links
    refine ⟨is ▸ ok.bound, is ▸ ok.first, is ▸ ok.last, fun i low high => ?_⟩
    have prev := congrFun prevs i
    have next := congrFun nexts i
    simp only [LRUCacheManager.links] at prev next
    rw [prev, next]
    exact ok.links i low high
  case last => exact is ▸ accessed.last

/-- The links of the others are kept, and the free chain with them. -/
theorem Accessed.slots (accessed : Accessed dev slot dev') (slots : Slots dev free)
    (faults : dev'.disk.faults = dev.disk.faults) (count : dev'.disk.count = dev.disk.count) (out : slot ∉ free)
    (safe : dev.cache.UnlinksFree free slot) : Slots dev' free where
  steady := faults ▸ slots.steady
  nonempty := accessed.size ▸ slots.nonempty
  links := by
    rw [accessed.size]
    exact accessed.linksOk
  chain := by
    rw [accessed.freeFirst]
    refine slots.chain.congr fun i onChain => ?_
    have other : i ≠ slot := fun same => out (same ▸ onChain)
    rw [accessed.links, Links.next_touch other]
    split
    next before =>
      obtain ⟨rfl, -⟩ := before
      exact (safe onChain).symm
    next => rfl
  nodup := slots.nodup
  inside := accessed.size ▸ slots.inside
  hash b i mapped := by
    rw [accessed.size, accessed.id, count]
    exact slots.hash b i (accessed.hashtable ▸ mapped)
  held i lower upper out := by
    rw [accessed.hashtable, accessed.id]
    exact slots.held i lower (accessed.size ▸ upper) out
  victim := fun _ => accessed.last

namespace Slots

theorem run_touch (slots : Slots dev free) (hit : dev.cache.hashtable id = some slot) :
    ∃ cache, dev.cache.touch slot = some cache ∧ Accessed dev slot { dev with cache } ∧
      (cache.buffer slot).1 = (dev.cache.buffer slot).1 ∧
      (cache.buffer slot).2.isDirty = (dev.cache.buffer slot).2.isDirty := by
  obtain ⟨lower, upper, -⟩ := slots.hash id slot hit
  obtain ⟨cache, ran, links, relinked, last⟩ := LRUCacheManager.touch_links slots.links lower upper
  exact ⟨cache, ran, ⟨relinked.freeFirst, relinked.hashtable, relinked.size, relinked.id, fun i _ => relinked.content i,
    fun i _ => relinked.isDirty i, LRUCacheManager.links_touch ran, links, last⟩, relinked.content slot, relinked.isDirty slot⟩

/-- `upsert` of a cached block. -/
theorem run_upsert_hit (slots : Slots dev free) (hit : dev.cache.hashtable id = some slot) (blk : Block) :
    ∃ dev', dev.upsert id blk = some (.kSuccess, dev') ∧ Accessed dev slot dev' ∧
      (dev'.cache.buffer slot).1 = blk ∧ (dev'.cache.buffer slot).2.isDirty = true ∧ dev'.disk = dev.disk := by
  obtain ⟨lower, upper, -⟩ := slots.hash id slot hit
  obtain ⟨cache, ran, accessed, -, -⟩ := slots.run_touch hit
  have ran₂ := LRUCacheManager.modify_of_range (c := cache) lower (accessed.size ▸ upper) fun e =>
    (blk, if e.2.isDirty then e.2 else e.2.revDirty)
  have accessed₂ := accessed.setEntry (by dsimp only; split <;> rfl) (by dsimp only; split <;> rfl)
    (by dsimp only; split <;> rfl) ran₂ dev.disk
  refine ⟨_, ?_, accessed₂, ?_, ?_, rfl⟩
  · simp only [BlockDevice.upsert, BlockDevice.getPage, hit, ran, Option.bind_eq_bind, Option.bind_some,
      Option.pure_def, reduceCtorEq, if_false, ran₂]
  · simp only [Function.update_self]
  · simp only [Function.update_self]
    split
    · assumption
    · simp_all

/-- `get` of a cached block. -/
theorem run_get_hit (slots : Slots dev free) (hit : dev.cache.hashtable id = some slot) :
    ∃ dev', dev.get id = some (some (dev.cache.buffer slot).1, dev') ∧ Accessed dev slot dev' ∧
      (dev'.cache.buffer slot).1 = (dev.cache.buffer slot).1 ∧
      (dev'.cache.buffer slot).2.isDirty = (dev.cache.buffer slot).2.isDirty ∧ dev'.disk = dev.disk := by
  obtain ⟨cache, ran, accessed, content, dirty⟩ := slots.run_touch hit
  refine ⟨_, ?_, accessed, content, dirty, rfl⟩
  simp only [BlockDevice.get, hit, ran, Option.bind_eq_bind, Option.bind_some, Option.pure_def]
  rw [content]

/-- `sync` of a cached block. -/
theorem run_sync_hit (slots : Slots dev free) (hit : dev.cache.hashtable id = some slot) :
    ∃ dev', dev.sync id = some (.kSuccess, dev') ∧ Accessed dev slot dev' ∧
      (dev'.cache.buffer slot).1 = (dev.cache.buffer slot).1 ∧ (dev'.cache.buffer slot).2.isDirty = false ∧
      Transferred (dev.dirtyWrite id slot) 0 dev.disk dev'.disk := by
  obtain ⟨lower, upper, -, -, inRange⟩ := slots.hash id slot hit
  obtain ⟨cache, ran, accessed, content, dirty⟩ := slots.run_touch hit
  have upper' : slot < cache.size := accessed.size ▸ upper
  have here := LRUCacheManager.status_of_range lower upper'
  rw [BlockDevice.dirtyWrite]
  split
  next isDirty =>
    have ran₂ := LRUCacheManager.modify_of_range (c := cache) lower upper' fun e => (e.1, e.2.revDirty)
    have write := RawDisk.pwrite_of_ready (slots.ready inRange) (cache.buffer slot).1
    refine ⟨_, ?_, accessed.setEntry rfl rfl rfl ran₂
      { dev.disk.tick with blocks := Function.update dev.disk.blocks id (cache.buffer slot).1 }, ?_, ?_, ?_⟩
    · simp only [BlockDevice.sync, hit, ran, Option.bind_eq_bind, Option.bind_some, Option.pure_def, here,
        dirty.trans isDirty, if_true, ran₂, BlockDevice.writeToDisk, Function.update_self, write]
    · simp only [Function.update_self]
      exact content
    · simp only [Function.update_self, BlockStatus.isDirty_revDirty, dirty.trans isDirty, Bool.not_true]
    · rw [content]
      exact ⟨rfl, rfl, rfl, rfl⟩
  next isClean =>
    have clean : (cache.buffer slot).2.isDirty = false := dirty.trans (Bool.eq_false_iff.mpr isClean)
    refine ⟨_, ?_, accessed, content, clean, .refl _⟩
    simp only [BlockDevice.sync, hit, ran, Option.bind_eq_bind, Option.bind_some, Option.pure_def, here, clean,
      Bool.false_eq_true, if_false]

end Slots

/-! ### A slot for another block -/

/-- The write that an `alloc` makes for its victim. -/
def BlockDevice.evictWrite (dev : BlockDevice) : List (Nat × Block) :=
  if dev.cache.freeFirst = -1 ∧ dev.cache.lruLast ≠ -1 then
    dev.dirtyWrite (uint32 (dev.cache.buffer dev.cache.lruLast).2.id) dev.cache.lruLast
  else []

/-- What `alloc` returns: a slot that belongs to no block. -/
structure SlotTaken (dev : BlockDevice) (free : List Int) (slot : Int) (dev' : BlockDevice) : Prop where
  place : free.head? = some slot ∨ free = [] ∧ slot = dev.cache.lruLast
  lower : 0 ≤ slot
  upper : slot < dev.cache.size
  out : slot ∉ free.tail
  cleared : LRUCacheManager.Cleared dev.cache slot dev'.cache
  chain : Follows (-1) dev.cache.links.next dev'.cache.freeFirst free.tail
  hashtable : ∀ b, dev'.cache.hashtable b =
    if dev.cache.hashtable b = some slot then none else dev.cache.hashtable b
  wrote : Transferred dev.evictWrite 0 dev.disk dev'.disk

/-- Slot `slot` has been taken for block `id`; if it was not free, it has been evicted. -/
structure Entered (dev : BlockDevice) (free : List Int) (id : Nat) (slot : Int) (dev' : BlockDevice) : Prop where
  place : free.head? = some slot ∨ free = [] ∧ slot = dev.cache.lruLast
  hashtable : ∀ b, dev'.cache.hashtable b =
    if b = id then some slot else if dev.cache.hashtable b = some slot then none else dev.cache.hashtable b
  size : dev'.cache.size = dev.cache.size
  id : ∀ i, i ≠ slot → (dev'.cache.buffer i).2.id = (dev.cache.buffer i).2.id
  content : ∀ i, i ≠ slot → (dev'.cache.buffer i).1 = (dev.cache.buffer i).1
  dirty : ∀ i, i ≠ slot → (dev'.cache.buffer i).2.isDirty = (dev.cache.buffer i).2.isDirty
  links : dev'.cache.links = ((dev.cache.links.clear (-1) slot).unlink (-1) slot).push (-1) slot

namespace Slots

theorem run_alloc (slots : Slots dev free) :
    ∃ slot dev', dev.alloc = some (.kSuccess, slot, dev') ∧ SlotTaken dev free slot dev' := by
  cases free with
  -- the first slot of the free chain; no block is in it
  | cons slot rest =>
    obtain ⟨lower, upper⟩ := slots.inside slot List.mem_cons_self
    obtain ⟨first, some, chain⟩ := slots.chain
    have here := LRUCacheManager.status_of_range lower upper
    obtain ⟨c₁, c', ran, ran', cleared, freeFirst, hashtable⟩ := LRUCacheManager.run_clear
      (c := { dev.cache with freeFirst := (dev.cache.buffer slot).2.next }) ⟨slots.links.bound, slots.links.first,
        slots.links.last, slots.links.links⟩ lower upper
    refine ⟨slot, { dev with cache := c' }, ?_, .inl rfl, lower, upper, (List.nodup_cons.mp slots.nodup).1,
      ⟨cleared.size, cleared.content, cleared.clean, cleared.status, cleared.id, cleared.links, cleared.linksOk,
        cleared.last⟩, ?_, fun b => ?_, ?_⟩
    · simp only [BlockDevice.alloc, first, ne_eq, some, not_false_eq_true, if_true, here, Option.bind_eq_bind,
        Option.bind_some, ran, ran', Option.pure_def]
    · exact freeFirst ▸ chain
    · rw [if_neg fun mapped => (slots.hash b slot mapped).2.2.1 List.mem_cons_self]
      exact congrFun hashtable b
    · rw [BlockDevice.evictWrite, if_neg fun none => some (first.symm.trans none.1)]
      exact .refl _
  -- the last slot of the LRU list; its block is written back and leaves the table
  | nil =>
    have first : dev.cache.freeFirst = -1 := slots.chain
    have last := slots.victim rfl
    have lower : 0 ≤ dev.cache.lruLast := by
      have := slots.links.last.1
      omega
    have upper := slots.links.last.2
    have here := LRUCacheManager.status_of_range lower upper
    have held := slots.held _ lower upper List.not_mem_nil
    have inRange := (slots.hash _ _ held).2.2.2.2
    have evict : dev.evictWrite = _ := if_pos ⟨first, last⟩
    obtain ⟨disk, write, wrote⟩ := dev.run_writeBack _ _ fun _ => slots.ready inRange
    rw [← evict] at wrote
    generalize named : uint32 (dev.cache.buffer dev.cache.lruLast).2.id = old at held write
    obtain ⟨c₁, c', ran, ran', cleared, freeFirst, hashtable⟩ := LRUCacheManager.run_clear
      (c := { dev.cache with hashtable := Function.update dev.cache.hashtable old none })
      ⟨slots.links.bound, slots.links.first, slots.links.last, slots.links.links⟩ lower upper
    refine ⟨dev.cache.lruLast, { cache := c', disk }, ?_, .inr ⟨rfl, rfl⟩, lower, upper, List.not_mem_nil,
      ⟨cleared.size, cleared.content, cleared.clean, cleared.status, cleared.id, cleared.links, cleared.linksOk,
        cleared.last⟩, ?_, fun b => ?_, wrote⟩
    · rw [BlockDevice.alloc, if_neg (not_not_intro first), if_pos last]
      simp only [here, Option.bind_eq_bind, Option.bind_some, named, write, reduceCtorEq, if_false, ran, ran',
        Option.pure_def]
    · exact freeFirst.trans first
    · simp only [hashtable, Function.update_apply]
      by_cases own : b = old
      · rw [if_pos own, if_pos (own ▸ held)]
      · rw [if_neg own, if_neg fun mapped => own (slots.inj mapped held)]

/-- `upsert` of a block that is not cached. -/
theorem run_upsert_miss (slots : Slots dev free) (miss : dev.cache.hashtable id = none) (small : id < 4294967296)
    (inRange : id < dev.disk.count) (blk : Block) :
    ∃ slot dev', dev.upsert id blk = some (.kSuccess, dev') ∧ Slots dev' free.tail ∧
      Entered dev free id slot dev' ∧ (dev'.cache.buffer slot).1 = blk ∧
      (dev'.cache.buffer slot).2.isDirty = true ∧ Transferred dev.evictWrite 1 dev.disk dev'.disk := by
  obtain ⟨slot, dev₁, alloc, taken⟩ := slots.run_alloc
  obtain ⟨place, lower, upper, out, cleared, chain, hashtable, wrote⟩ := taken
  have ready : dev₁.disk.ready id = true := by
    simp only [RawDisk.ready, wrote.count, inRange, wrote.faults, slots.steady, decide_true, Bool.not_false, Bool.and_self]
  generalize entry : (blk, ({ (dev₁.cache.buffer slot).2 with id := int32 id } : BlockStatus).revDirty) = e
  have dirty : e.2.isDirty = true := by
    rw [← entry, BlockStatus.isDirty_revDirty]
    exact congrArg not cleared.clean
  have own : uint32 e.2.id = id := by
    rw [← entry]
    exact uint32_int32 small
  obtain ⟨dev', is⟩ : ∃ dev', dev' = { (dev₁.setSlot slot e).setHash id (some slot) with disk := dev₁.disk.tick } :=
    ⟨_, rfl⟩
  have ran : dev.upsert id blk = some (.kSuccess, dev') := by
    have clean : ({ (dev₁.cache.buffer slot).2 with id := int32 id } : BlockStatus).isDirty = false := cleared.clean
    have range : 0 ≤ slot ∧ slot < dev₁.cache.size := ⟨lower, cleared.size ▸ upper⟩
    simp only [BlockDevice.upsert, BlockDevice.getPage, miss, alloc, Option.bind_eq_bind, Option.bind_some,
      LRUCacheManager.modify, range, BlockDevice.readFromDisk, RawDisk.pread, ready, if_true, Option.pure_def,
      reduceCtorEq, if_false, and_self, Function.update_self, Function.update_idem, clean, Bool.false_eq_true, entry]
    exact is ▸ rfl
  have others : ∀ i, i ≠ slot → dev'.cache.buffer i = dev₁.cache.buffer i := fun i other => by
    rw [is]
    exact Function.update_of_ne other _ _
  have here : dev'.cache.buffer slot = e := by
    rw [is]
    exact Function.update_self ..
  -- the table: the new block, without the one that was in the slot
  have table : ∀ b, dev'.cache.hashtable b =
      if b = id then some slot else if dev.cache.hashtable b = some slot then none else dev.cache.hashtable b := by
    intro b
    rw [← hashtable, is]
    exact Function.update_apply ..
  have size : dev'.cache.size = dev.cache.size := by
    rw [is]
    exact cleared.size
  have count' : dev'.disk.count = dev.disk.count := by
    rw [is]
    exact wrote.count
  have first : dev'.cache.lruFirst = dev₁.cache.lruFirst := by
    rw [is]
    rfl
  have last : dev'.cache.lruLast = dev₁.cache.lruLast := by
    rw [is]
    rfl
  -- `upsert` writes content, id and dirty bit of the slot, not its links
  have linked : ∀ i, (dev'.cache.buffer i).2.prev = (dev₁.cache.buffer i).2.prev ∧
      (dev'.cache.buffer i).2.next = (dev₁.cache.buffer i).2.next := by
    intro i
    by_cases at' : i = slot
    · rw [at', here, ← entry]
      exact ⟨rfl, rfl⟩
    · rw [others i at']
      exact ⟨rfl, rfl⟩
  have links : dev'.cache.links = ((dev.cache.links.clear (-1) slot).unlink (-1) slot).push (-1) slot := by
    rw [← cleared.links, LRUCacheManager.links, LRUCacheManager.links, Links.mk.injEq]
    exact ⟨first, last, funext fun i => (linked i).1, funext fun i => (linked i).2⟩
  -- the slots in use are those of before and the new one
  have outside : ∀ i, i ∉ free.tail → i ≠ slot → i ∉ free := by
    intro i out' other
    cases free with
    | nil => exact List.not_mem_nil
    | cons f rest =>
      cases place with
      | inl first => exact List.not_mem_cons_of_ne_of_not_mem (Option.some.inj first ▸ other) out'
      | inr none => cases none.1
  have kept : ∀ i, i ≠ slot → (dev'.cache.buffer i).2.id = (dev.cache.buffer i).2.id := fun i other => by
    rw [others i other, cleared.id i other]
  have named : uint32 (dev'.cache.buffer slot).2.id = id := by rw [here, own]
  refine ⟨slot, dev', ran, ?_, ⟨place, table, size, kept, fun i other => ?_, fun i other => ?_, links⟩, ?_, ?_, ?_⟩
  · constructor
    case steady =>
      rw [is]
      exact wrote.faults ▸ slots.steady
    case nonempty => exact size ▸ slots.nonempty
    case links =>
      have linksOk := cleared.linksOk
      rw [size]
      refine ⟨size ▸ Int.le_refl _, first ▸ linksOk.first, last ▸ linksOk.last, fun i low high => ?_⟩
      rw [(linked i).1, (linked i).2]
      exact linksOk.links i low high
    case chain =>
      have freeFirst : dev'.cache.freeFirst = dev₁.cache.freeFirst := by
        rw [is]
        rfl
      rw [freeFirst]
      refine chain.congr fun i onChain => ?_
      have other : i ≠ slot := fun same => out (same ▸ onChain)
      rw [links, Links.next_touch_clear other]
    case nodup => exact slots.nodup.tail
    case inside => exact fun i onChain => size ▸ slots.inside i (List.mem_of_mem_tail onChain)
    case hash =>
      intro b i mapped
      rw [table] at mapped
      rw [size, count']
      split at mapped
      next asked =>
        obtain rfl := Option.some.inj mapped
        exact ⟨lower, upper, out, named.trans asked.symm, asked ▸ inRange⟩
      next =>
        split at mapped
        · cases mapped
        next other =>
          have ne : i ≠ slot := fun same => other (same ▸ mapped)
          rw [kept i ne]
          obtain ⟨low, high, out', rest⟩ := slots.hash b i mapped
          exact ⟨low, high, fun onChain => out' (List.mem_of_mem_tail onChain), rest⟩
    case held =>
      intro i low high out'
      rw [table]
      by_cases at' : i = slot
      · rw [at', named, if_pos rfl]
      · have mapped := slots.held i low (size ▸ high) (outside i out' at')
        -- a slot other than the new one does not hold `id`, which was not cached
        have cached : uint32 (dev.cache.buffer i).2.id ≠ id := fun is => by
          rw [is, miss] at mapped
          cases mapped
        rw [kept i at', if_neg cached, mapped, if_neg fun same => at' (Option.some.inj same)]
    case victim => exact fun _ => last ▸ cleared.last
  · rw [others i other, cleared.content]
  · simp only [others i other, BlockStatus.isDirty, cleared.status i other]
  · rw [here, ← entry]
  · rw [here, dirty]
  · rw [is]
    exact ⟨wrote.faults, wrote.count, wrote.blocks, congrArg (· + 1) wrote.transfers⟩

theorem follows_range (next : Int → Int) (n : Nat)
    (chain : ∀ i : Nat, i < n → next i = if i + 1 < n then (i : Int) + 1 else -1) (i k : Nat) (all : i + k = n) :
    Follows (-1) next (if i < n then i else -1) ((List.range' i k).map fun j : Nat => (j : Int)) := by
  induction k generalizing i with
  | zero => exact if_neg (by omega)
  | succ k ih =>
    rw [List.range'_succ, List.map_cons, if_pos (by omega)]
    refine ⟨rfl, by omega, ?_⟩
    have rest := ih (i + 1) (by omega)
    rw [chain i (by omega)]
    exact_mod_cast rest

/-- In a new cache every slot is on the free chain. -/
theorem init {cacheSize : Nat} {disk : RawDisk} (capacity : kBlockSize ≤ cacheSize) (steady : ∀ n, disk.faults n = false) :
    Slots (.new cacheSize disk) ((List.range' 0 (cacheSize / kBlockSize)).map fun i : Nat => (i : Int)) := by
  have some : 0 < cacheSize / kBlockSize := Nat.div_pos capacity (by decide)
  have none : IsLink (cacheSize / kBlockSize : Nat) (-1) := ⟨by omega, by omega⟩
  have next : ∀ i, (BlockDevice.new cacheSize disk).cache.links.next i =
      if i = ((cacheSize / kBlockSize : Nat) : Int) - 1 then -1 else i + 1 := fun _ => rfl
  have prev : ∀ i, (BlockDevice.new cacheSize disk).cache.links.prev i = if i = 0 then -1 else i - 1 := fun _ => rfl
  have every : ∀ slot : Int, 0 ≤ slot → slot < (cacheSize / kBlockSize : Nat) →
      slot ∈ (List.range' 0 (cacheSize / kBlockSize)).map fun i : Nat => (i : Int) := by
    intro slot lower upper
    refine List.mem_map.mpr ⟨slot.toNat, List.mem_range'_1.mpr ⟨Nat.zero_le _, by omega⟩, by omega⟩
  constructor
  case steady => exact steady
  case nonempty => exact some
  case links =>
    refine ⟨Int.le_refl _, none, none, fun i low high => ?_⟩
    have at' := next i
    have before := prev i
    simp only [LRUCacheManager.links] at at' before
    rw [at', before, IsLink, IsLink]
    have high' : i < (cacheSize / kBlockSize : Nat) := high
    show (_ ∧ _ < ((cacheSize / kBlockSize : Nat) : Int)) ∧ _ ∧ _ < ((cacheSize / kBlockSize : Nat) : Int)
    split <;> split <;> omega
  case chain =>
    have chain := follows_range _ (cacheSize / kBlockSize) (fun i low => (next i).trans (by
      split <;> split <;> omega)) 0 _ (Nat.zero_add _)
    rw [if_pos some] at chain
    exact chain
  case nodup => exact List.Nodup.map (fun a b same => Int.ofNat_inj.mp same) List.nodup_range'
  case inside =>
    intro slot onChain
    obtain ⟨i, member, rfl⟩ := List.mem_map.mp onChain
    have := List.mem_range'_1.mp member
    exact ⟨by omega, by show (i : Int) < ((cacheSize / kBlockSize : Nat) : Int); omega⟩
  case hash => exact fun b slot mapped => by cases mapped
  case held => exact fun slot lower upper out => absurd (every slot lower upper) out
  case victim =>
    intro none
    have := congrArg List.length none
    rw [List.length_map, List.length_range', List.length_nil] at this
    omega

end Slots

end

/-! ## Accesses -/

/-- The calls that look for a block in the cache. -/
inductive Access where
  | upsert (id : Nat) (blk : Block)
  | get (id : Nat)
  | sync (id : Nat)

namespace Access

def id : Access → Nat
  | upsert id _ | get id | sync id => id

def run : Access → BlockDevice → Option (Ret × BlockDevice)
  | upsert id blk, dev => dev.upsert id blk
  | get id, dev => (dev.get id).map fun r => (if r.1.isSome then .kSuccess else .kFail, r.2)
  | sync id, dev => dev.sync id

/-- The block is a `uint32_t` and lies on the disk. -/
def InRange (count : Nat) (a : Access) : Prop := a.id < count ∧ a.id < 4294967296

instance (count : Nat) (a : Access) : Decidable (a.InRange count) := inferInstanceAs (Decidable (_ ∧ _))

/-- The calls of `write_to_disk` that the access makes. -/
def issued : Access → BlockDevice → List (Nat × Block)
  | upsert id _, dev => if dev.cache.hashtable id = none then dev.evictWrite else []
  | get _, _ => []
  | sync id, dev =>
    match dev.cache.hashtable id with
    | none => []
    | some slot => dev.dirtyWrite id slot

/-- The calls of `read_from_disk`. -/
def fetched : Access → BlockDevice → Nat
  | upsert id _, dev => if dev.cache.hashtable id = none then 1 else 0
  | get _, _ | sync _, _ => 0

/-- What the access makes of the entry of its block. -/
def Leaves : Access → Block × BlockStatus → Block × BlockStatus → Prop
  | upsert _ blk, _, e' => e'.1 = blk ∧ e'.2.isDirty = true
  | get _, e, e' => e'.1 = e.1 ∧ e'.2.isDirty = e.2.isDirty
  | sync _, e, e' => e'.1 = e.1 ∧ e'.2.isDirty = false

/-- All that an access does to the cache. -/
inductive Outcome (a : Access) (dev : BlockDevice) (free : List Int) : Ret → BlockDevice → Prop where
  | hit {slot : Int} {dev' : BlockDevice} (hit : dev.cache.hashtable a.id = some slot)
      (slots : dev.cache.UnlinksFree free slot → Slots dev' free) (accessed : Accessed dev slot dev')
      (leaves : a.Leaves (dev.cache.buffer slot) (dev'.cache.buffer slot)) : Outcome a dev free .kSuccess dev'
  | miss (miss : dev.cache.hashtable a.id = none) (noUpsert : ∀ id blk, a ≠ .upsert id blk) :
      Outcome a dev free .kFail dev
  | enter {slot : Int} {dev' : BlockDevice} {blk : Block} (miss : dev.cache.hashtable a.id = none)
      (upsert : a = .upsert a.id blk) (slots : Slots dev' free.tail) (entered : Entered dev free a.id slot dev')
      (leaves : a.Leaves (dev.cache.buffer slot) (dev'.cache.buffer slot)) : Outcome a dev free .kSuccess dev'

end Access

theorem Slots.run_access {dev : BlockDevice} {free : List Int} (slots : Slots dev free) (a : Access)
    (inRange : a.InRange dev.disk.count) :
    ∃ ret dev', a.run dev = some (ret, dev') ∧ a.Outcome dev free ret dev' ∧
      Transferred (a.issued dev) (a.fetched dev) dev.disk dev'.disk := by
  cases found : dev.cache.hashtable a.id with
  | some slot =>
    have out := (slots.hash _ slot found).2.2.1
    cases a with
    | upsert id blk =>
      replace found : dev.cache.hashtable id = some slot := found
      obtain ⟨dev', ran, accessed, content, dirty, disk⟩ := slots.run_upsert_hit found blk
      have quiet : Transferred ((Access.upsert id blk).issued dev) ((Access.upsert id blk).fetched dev) dev.disk dev'.disk := by
        rw [Access.issued, Access.fetched, found, if_neg (by simp), if_neg (by simp), disk]
        exact .refl _
      exact ⟨_, dev', ran, .hit found (accessed.slots slots quiet.faults quiet.count out) accessed ⟨content, dirty⟩, quiet⟩
    | get id =>
      obtain ⟨dev', ran, accessed, content, dirty, disk⟩ := slots.run_get_hit found
      have quiet : Transferred [] 0 dev.disk dev'.disk := disk ▸ .refl _
      exact ⟨_, dev', congrArg (Option.map _) ran,
        .hit found (accessed.slots slots quiet.faults quiet.count out) accessed ⟨content, dirty⟩, quiet⟩
    | sync id =>
      replace found : dev.cache.hashtable id = some slot := found
      obtain ⟨dev', ran, accessed, content, dirty, wrote⟩ := slots.run_sync_hit found
      refine ⟨_, dev', ran, .hit found (accessed.slots slots wrote.faults wrote.count out) accessed ⟨content, dirty⟩, ?_⟩
      simp only [Access.issued, Access.fetched, found]
      exact wrote
  | none =>
    cases a with
    | upsert id blk =>
      replace found : dev.cache.hashtable id = none := found
      obtain ⟨slot, dev', ran, slots', entered, content, dirty, wrote⟩ :=
        slots.run_upsert_miss found inRange.2 inRange.1 blk
      refine ⟨_, dev', ran, .enter found rfl slots' entered ⟨content, dirty⟩, ?_⟩
      rw [Access.issued, Access.fetched, if_pos found, if_pos found]
      exact wrote
    | get id =>
      replace found : dev.cache.hashtable id = none := found
      have ran : dev.get id = some (none, dev) := by simp only [BlockDevice.get, found]
      exact ⟨_, dev, congrArg (Option.map _) ran, .miss found (fun _ _ other => by cases other), .refl _⟩
    | sync id =>
      replace found : dev.cache.hashtable id = none := found
      have ran : dev.sync id = some (.kFail, dev) := by simp only [BlockDevice.sync, found]
      refine ⟨_, dev, ran, .miss found (fun _ _ other => by cases other), ?_⟩
      simp only [Access.issued, Access.fetched, found]
      exact .refl _

end Sbfs
