import Sbfs.Config

/-! # The write-back block cache

`LRUCacheManager` and the `BlockDevice` above it (`lru_cache.h`, `lru_cache.cpp`,
`blk_dev.cpp`, in the build with `BLOCK_CACHE`).  The two classes call one another,
so every operation acts on a whole `BlockDevice`.

An operation returns `none` when the code would index the slot vector outside
`0 .. _size - 1`. -/

namespace Sbfs

/-! ## The backing file -/

/-- The file behind the device.  Transfer number `n` of a run fails when
`faults n` holds, and a transfer past the end of the file always fails. -/
structure RawDisk where
  count : Nat
  blocks : Nat → Block
  faults : Nat → Bool
  transfers : Nat

namespace RawDisk

/-- Whether the next transfer of block `id` goes through. -/
def ready (d : RawDisk) (id : Nat) : Bool := decide (id < d.count) && !d.faults d.transfers

/-- The disk after a transfer that changed nothing. -/
def tick (d : RawDisk) : RawDisk := { d with transfers := d.transfers + 1 }

/-- `pwrite` of one block. -/
def pwrite (d : RawDisk) (id : Nat) (blk : Block) : Ret × RawDisk :=
  if d.ready id then (.kSuccess, { d.tick with blocks := Function.update d.blocks id blk })
  else (.kFail, d.tick)

/-- `pread` of one block. -/
def pread (d : RawDisk) (id : Nat) : Option Block × RawDisk :=
  (if d.ready id then some (d.blocks id) else none, d.tick)

end RawDisk

/-! ## Slots -/

/-- `BlockStatus`; bit 0 of `status` is the dirty flag. -/
structure BlockStatus where
  status : Nat
  prev : Int
  next : Int
  id : Int
deriving Repr, DecidableEq

namespace BlockStatus

def isDirty (stu : BlockStatus) : Bool := stu.status % 2 == 1

def revDirty (stu : BlockStatus) : BlockStatus := { stu with status := stu.status ^^^ 1 }

def init : BlockStatus := { status := 0, prev := -1, next := -1, id := -1 }

@[simp] theorem isDirty_init : init.isDirty = false := rfl

@[simp] theorem isDirty_revDirty (stu : BlockStatus) : stu.revDirty.isDirty = !stu.isDirty := by
  simp only [isDirty, revDirty, Nat.xor_mod_two_eq]
  rcases Nat.mod_two_eq_zero_or_one stu.status with even | odd
  · simp [Nat.add_mod, even]
  · simp [Nat.add_mod, odd]

end BlockStatus

/-- `LRUCacheManager`; `buffer` is `_buffer`, whose valid indices are `0 .. size - 1`. -/
structure LRUCacheManager where
  freeFirst : Int
  lruFirst : Int
  lruLast : Int
  hashtable : Nat → Option Int
  buffer : Int → Block × BlockStatus
  size : Nat
  cacheSize : Nat

namespace LRUCacheManager

/-- The constructor: every slot is on the free chain. -/
def new (cacheSize : Nat) : LRUCacheManager :=
  let size := cacheSize / kBlockSize
  { freeFirst := 0, lruFirst := -1, lruLast := -1, hashtable := fun _ => none
    buffer := fun i => (Bytes.zero,
      { status := 0
        prev := if i = 0 then -1 else i - 1
        next := if i = (size : Int) - 1 then -1 else i + 1
        id := 0 })
    size, cacheSize }

/-- `_buffer[slot].second`. -/
def status (c : LRUCacheManager) (slot : Int) : Option BlockStatus :=
  if 0 ≤ slot ∧ slot < c.size then some (c.buffer slot).2 else none

/-- Assignment to a slot. -/
def modify (c : LRUCacheManager) (slot : Int) (f : Block × BlockStatus → Block × BlockStatus) :
    Option LRUCacheManager :=
  if 0 ≤ slot ∧ slot < c.size then
    some { c with buffer := Function.update c.buffer slot (f (c.buffer slot)) }
  else none

/-- Assignment to a slot that is skipped when the link to it is `-1`. -/
def modifyLinked (c : LRUCacheManager) (slot : Int) (f : Block × BlockStatus → Block × BlockStatus) :
    Option LRUCacheManager :=
  if slot ≠ -1 then c.modify slot f else some c

def setPrev (z : Int) (e : Block × BlockStatus) : Block × BlockStatus := (e.1, { e.2 with prev := z })

def setNext (z : Int) (e : Block × BlockStatus) : Block × BlockStatus := (e.1, { e.2 with next := z })

def freeAdd (c : LRUCacheManager) (slot : Int) : Option LRUCacheManager := do
  let c ← c.modify slot (setNext c.freeFirst)
  return { c with freeFirst := slot }

def lruAdd (c : LRUCacheManager) (slot : Int) : Option LRUCacheManager := do
  let c ← c.modify slot fun e => setPrev (-1) (setNext c.lruFirst e)
  let c ← c.modifyLinked c.lruFirst (setPrev slot)
  return { c with lruFirst := slot, lruLast := if c.lruLast = -1 then slot else c.lruLast }

def lruRemove (c : LRUCacheManager) (slot : Int) : Option LRUCacheManager := do
  let stu ← c.status slot
  let c := { c with
    lruFirst := if slot = c.lruFirst then stu.next else c.lruFirst
    lruLast := if slot = c.lruLast then stu.prev else c.lruLast }
  let c ← c.modifyLinked stu.next (setPrev stu.prev)
  -- `stu` is a reference, and the neighbour just written may be the slot itself.
  let stu ← c.status slot
  let c ← c.modifyLinked stu.prev (setNext stu.next)
  c.modify slot fun e => setPrev (-1) (setNext (-1) e)

/-- `LRU_remove` followed by `LRU_add`: the slot becomes the most recent one. -/
def touch (c : LRUCacheManager) (slot : Int) : Option LRUCacheManager := do
  let c ← c.lruRemove slot
  c.lruAdd slot

end LRUCacheManager

/-! ## The device -/

structure BlockDevice where
  cache : LRUCacheManager
  disk : RawDisk

namespace BlockDevice

/-- `BlockDevice::write_to_disk`. -/
def writeToDisk (dev : BlockDevice) (id : Nat) (blk : Block) : Ret × BlockDevice :=
  let (ret, disk) := dev.disk.pwrite id blk
  (ret, { dev with disk })

/-- `BlockDevice::read_from_disk`. -/
def readFromDisk (dev : BlockDevice) (id : Nat) : Option Block × BlockDevice :=
  let (blk, disk) := dev.disk.pread id
  (blk, { dev with disk })

/-- The write-back of a dirty slot under block id `id`, in `alloc`, `remove_page` and `sync_all`. -/
def writeBack (dev : BlockDevice) (id : Nat) (slot : Int) : Ret × BlockDevice :=
  if (dev.cache.buffer slot).2.isDirty then dev.writeToDisk id (dev.cache.buffer slot).1
  else (.kSuccess, dev)

/-- `LRUCacheManager::alloc`; the second component is the reference parameter `slot`. -/
def alloc (dev : BlockDevice) : Option (Ret × Int × BlockDevice) := do
  if dev.cache.freeFirst ≠ -1 then
    let slot := dev.cache.freeFirst
    let stu ← dev.cache.status slot
    let cache := { dev.cache with freeFirst := stu.next }
    let cache ← cache.modify slot fun e => (e.1, .init)
    let cache ← cache.touch slot
    return (.kSuccess, slot, { dev with cache })
  else if dev.cache.lruLast ≠ -1 then
    -- The loop over `prev` returns in its first iteration: no slot is ever pinned.
    let slot := dev.cache.lruLast
    let stu ← dev.cache.status slot
    let (ret, dev) := dev.writeBack (uint32 stu.id) slot
    if ret = .kFail then return (.kFail, slot, dev)
    let hashtable := Function.update dev.cache.hashtable (uint32 stu.id) none
    let cache := { dev.cache with hashtable }
    let cache ← cache.modify slot fun e => (e.1, .init)
    let cache ← cache.touch slot
    return (.kSuccess, slot, { dev with cache })
  else return (.kFail, -1, dev)

/-- `LRUCacheManager::get_page`. -/
def getPage (dev : BlockDevice) (id : Nat) : Option (Ret × Int × BlockDevice) :=
  match dev.cache.hashtable id with
  | none => do
    let (_, slot, dev) ← dev.alloc
    let cache ← dev.cache.modify slot fun e => (e.1, { e.2 with id := int32 id })
    let (blk, dev) := { dev with cache }.readFromDisk id
    match blk with
    | none => return (.kFail, slot, dev)
    | some blk =>
      let cache ← dev.cache.modify slot fun e => (blk, e.2)
      let hashtable := Function.update cache.hashtable id (some slot)
      return (.kSuccess, slot, { dev with cache := { cache with hashtable } })
  | some slot => do
    let cache ← dev.cache.touch slot
    return (.kSuccess, slot, { dev with cache })

/-- `LRUCacheManager::upsert`. -/
def upsert (dev : BlockDevice) (id : Nat) (blk : Block) : Option (Ret × BlockDevice) := do
  let (ret, slot, dev) ← dev.getPage id
  if ret = .kFail then return (.kFail, dev)
  let cache ← dev.cache.modify slot fun e =>
    (blk, if e.2.isDirty then e.2 else e.2.revDirty)
  return (.kSuccess, { dev with cache })

/-- `LRUCacheManager::get`. -/
def get (dev : BlockDevice) (id : Nat) : Option (Option Block × BlockDevice) :=
  match dev.cache.hashtable id with
  | none => some (none, dev)
  | some slot => do
    let cache ← dev.cache.touch slot
    return (some (cache.buffer slot).1, { dev with cache })

/-- `LRUCacheManager::sync`, which `BlockDevice::sync` returns. -/
def sync (dev : BlockDevice) (id : Nat) : Option (Ret × BlockDevice) :=
  match dev.cache.hashtable id with
  | none => some (.kFail, dev)
  | some slot => do
    let cache ← dev.cache.touch slot
    let stu ← cache.status slot
    if stu.isDirty then
      let cache ← cache.modify slot fun e => (e.1, e.2.revDirty)
      return { dev with cache }.writeToDisk id (cache.buffer slot).1
    else return (.kSuccess, { dev with cache })

/-- The loop of `LRUCacheManager::sync_all` from slot `i` on, for `n` slots. -/
def syncFrom : Nat → Int → BlockDevice → Option (Ret × BlockDevice)
  | 0, _, dev => some (.kSuccess, dev)
  | n + 1, i, dev => do
    let stu ← dev.cache.status i
    let (ret, dev) := dev.writeBack (uint32 stu.id) i
    if ret = .kFail then return (.kFail, dev)
    syncFrom n (i + 1) dev

/-- `LRUCacheManager::sync_all`, which `BlockDevice::sync_all` returns. -/
def syncAll (dev : BlockDevice) : Option (Ret × BlockDevice) := syncFrom dev.cache.size 0 dev

/-- `LRUCacheManager::remove`. -/
def remove (dev : BlockDevice) (id : Nat) : Option (Ret × BlockDevice) :=
  match dev.cache.hashtable id with
  | none => some (.kFail, dev)
  | some slot => do
    let _ ← dev.cache.status slot
    let (ret, dev) := dev.writeBack id slot
    if ret = .kFail then return (.kFail, dev)
    let hashtable := Function.update dev.cache.hashtable id none
    let cache ← { dev.cache with hashtable }.lruRemove slot
    let cache ← cache.freeAdd slot
    return (.kSuccess, { dev with cache })

/-- `BlockDevice::read`. -/
def read (dev : BlockDevice) (id : Nat) : Option (Option Block × BlockDevice) := do
  let (hit, dev) ← dev.get id
  match hit with
  | some blk => return (some blk, dev)
  | none =>
    -- The `pread` of the miss path is the one of `read_from_disk`.
    let (blk, dev) := dev.readFromDisk id
    match blk with
    | none => return (none, dev)
    | some blk =>
      let (_, dev) ← dev.upsert id blk
      return (some blk, dev)

/-- `BlockDevice::write`. -/
def write (dev : BlockDevice) (id : Nat) (blk : Block) : Option (Ret × BlockDevice) :=
  dev.upsert id blk

/-- A device over a disk, as the constructor leaves it. -/
def new (cacheSize : Nat) (disk : RawDisk) : BlockDevice := { cache := .new cacheSize, disk }

/-- What the device holds in block `b`: the cached content if there is one. -/
def logical (dev : BlockDevice) (b : Nat) : Block :=
  match dev.cache.hashtable b with
  | some slot => (dev.cache.buffer slot).1
  | none => dev.disk.blocks b

end BlockDevice

end Sbfs
