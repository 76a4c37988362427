import Sbfs.CacheLinks
import Sbfs.CacheTransparency

/-! # Removing blocks from the cache

`remove` puts a slot back on the free chain and leaves the rest of its status as it was.  Two
things can go wrong later.  `sync_all` writes every dirty slot, so it writes what a removed
slot held, also over a newer version of the block.  And an eviction damages the recency list,
after which the slot before a cached one may be free: unlinking the cached one then writes a
link into the free chain. -/

namespace Sbfs

open LinkedList

/-! ## Specification -/

/-- The calls of `LRUCacheManager`. -/
inductive CacheCall where
  | access (a : Access)
  | remove (id : Nat)
  | syncAll

namespace CacheCall

def run : CacheCall → BlockDevice → Option (Ret × BlockDevice)
  | access a, dev => a.run dev
  | remove id, dev => dev.remove id
  | syncAll, dev => dev.syncAll

/-- The block of an access is one of the disk. -/
def InRange (count : Nat) : CacheCall → Prop
  | access a => a.InRange count
  | remove _ | syncAll => True

/-- The calls of `write_to_disk` that the call makes, if all of them succeed. -/
def issued : CacheCall → BlockDevice → List (Nat × Block)
  | access a, dev => a.issued dev
  | remove id, dev =>
    match dev.cache.hashtable id with
    | none => []
    | some slot => dev.dirtyWrite id slot
  | syncAll, dev => (List.range dev.cache.size).flatMap fun i : Nat =>
    dev.dirtyWrite (uint32 (dev.cache.buffer i).2.id) i

/-- The calls of `read_from_disk`. -/
def fetched : CacheCall → BlockDevice → Nat
  | access a, dev => a.fetched dev
  | remove _, _ | syncAll, _ => 0

/-- The upserts, the last one first. -/
def noted : CacheCall → List (Nat × Block) → List (Nat × Block)
  | access (.upsert id blk), upserts => (id, blk) :: upserts
  | access (.get _), upserts | access (.sync _), upserts | remove _, upserts | syncAll, upserts => upserts

end CacheCall

/-- Every slot is on the free chain exactly once, or holds exactly one block. -/
def Partitioned (c : LRUCacheManager) : Prop :=
  ∃ free, Follows (-1) c.links.next c.freeFirst free ∧ (∀ slot ∈ free, 0 ≤ slot ∧ slot < c.size) ∧
    ∀ slot : Int, 0 ≤ slot → slot < c.size → free.count slot = 1 ∧ (∀ id, c.hashtable id ≠ some slot) ∨
      slot ∉ free ∧ ∃! id, c.hashtable id = some slot

/-- The slots are partitioned now and after each of the calls, and what is written is what was last upserted. -/
def KeepsSlots : List CacheCall → List (Nat × Block) → BlockDevice → Prop
  | [], _, dev => Partitioned dev.cache
  | c :: rest, upserts, dev => Partitioned dev.cache ∧ (∀ w ∈ c.issued dev, upserts.lookup w.1 = some w.2) ∧
    ∃ ret dev', c.run dev = some (ret, dev') ∧ KeepsSlots rest (c.noted upserts) dev'

/-- Unlinking the slot from the recency list leaves the free chain as it is. -/
def LRUCacheManager.UnlinkSafe (c : LRUCacheManager) (slot : Int) : Prop :=
  ∀ free, Follows (-1) c.links.next c.freeFirst free → c.UnlinksFree free slot

/-- The slot of the call's block is not next to a free slot in the recency list, or has the same `next`;
and when all slots are written back, no dirty one of the free chain has an old version of its block. -/
def CacheCall.Safe (upserts : List (Nat × Block)) (dev : BlockDevice) : CacheCall → Prop
  | access a => ∀ slot, dev.cache.hashtable a.id = some slot → dev.cache.UnlinkSafe slot
  | remove id => ∀ slot, dev.cache.hashtable id = some slot → dev.cache.UnlinkSafe slot
  | syncAll => ∀ free, Follows (-1) dev.cache.links.next dev.cache.freeFirst free → ∀ slot ∈ free,
    (dev.cache.buffer slot).2.isDirty = true →
      upserts.lookup (uint32 (dev.cache.buffer slot).2.id) = some (dev.cache.buffer slot).1

/-- Every call is safe in the state that it is made in. -/
def StepsSafe : List CacheCall → List (Nat × Block) → BlockDevice → Prop
  | [], _, _ => True
  | c :: rest, upserts, dev => c.Safe upserts dev ∧
    ∀ ret dev', c.run dev = some (ret, dev') → StepsSafe rest (c.noted upserts) dev'

/-! ## The free chain -/

section

variable {dev dev' : BlockDevice} {free : List Int} {slot : Int} {id : Nat}

theorem Slots.partitioned (slots : Slots dev free) : Partitioned dev.cache := by
  refine ⟨free, slots.chain, slots.inside, fun slot lower upper => ?_⟩
  by_cases onChain : slot ∈ free
  · exact .inl ⟨List.count_eq_one_of_mem slots.nodup onChain, fun id mapped =>
      (slots.hash id slot mapped).2.2.1 onChain⟩
  · exact .inr ⟨onChain, _, slots.held slot lower upper onChain, fun id mapped =>
      (slots.hash id slot mapped).2.2.2.1.symm⟩

theorem Slots.unlinkSafe_iff (slots : Slots dev free) : dev.cache.UnlinkSafe slot ↔ dev.cache.UnlinksFree free slot := by
  constructor
  · exact fun safe => safe free slots.chain
  · intro safe free' chain
    rw [chain.unique slots.chain]
    exact safe

/-- In a partitioned cache the slots of the free chain are those that hold no block. -/
theorem Slots.member_iff (slots : Slots dev free) (lower : 0 ≤ slot) (upper : slot < dev.cache.size)
    {table : Nat → Option Int} {free' : List Int}
    (part : free'.count slot = 1 ∧ (∀ b, table b ≠ some slot) ∨ slot ∉ free' ∧ ∃! b, table b = some slot)
    (same : ∀ b, table b = some slot ↔ dev.cache.hashtable b = some slot) : slot ∈ free' ↔ slot ∈ free := by
  constructor
  · intro onChain
    by_contra out
    have mapped := slots.held slot lower upper out
    obtain ⟨-, unmapped⟩ | ⟨off, -⟩ := part
    · exact unmapped _ ((same _).mpr mapped)
    · exact off onChain
  · intro onChain
    obtain ⟨once, -⟩ | ⟨-, b, mapped, -⟩ := part
    · exact List.count_pos_iff.mp (by omega)
    · exact absurd onChain (slots.hash b slot ((same b).mp mapped)).2.2.1

/-- An access that is not safe damages the free chain. -/
theorem Slots.accessed_safe (slots : Slots dev free) (accessed : Accessed dev slot dev') (out : slot ∉ free)
    (parts : Partitioned dev'.cache) : dev.cache.UnlinksFree free slot := by
  intro before
  obtain ⟨free', chain, inside, parts⟩ := parts
  rw [accessed.size] at inside parts
  rw [accessed.hashtable] at parts
  rw [accessed.freeFirst] at chain
  have members : ∀ i, i ∈ free' ↔ i ∈ free := fun i => by
    by_cases range : 0 ≤ i ∧ i < dev.cache.size
    · exact slots.member_iff range.1 range.2 (parts i range.1 range.2) fun _ => Iff.rfl
    · exact iff_of_false (fun onChain => range (inside i onChain)) fun onChain => range (slots.inside i onChain)
  have low := (slots.inside _ before).1
  have next : ∀ i, i ≠ slot → dev'.cache.links.next i =
      if i = dev.cache.links.prev slot ∧ i ≠ -1 then dev.cache.links.next slot else dev.cache.links.next i := fun i other => by
    rw [accessed.links, Links.next_touch other]
  have kept := slots.chain.next_eq slots.nodup chain members before fun i onChain other => by
    rw [next i fun same => out (same ▸ onChain), if_neg fun both => other both.1]
  have new := next (dev.cache.buffer slot).2.prev fun same => out (same ▸ before)
  rw [if_pos ⟨rfl, by omega⟩, kept] at new
  exact new

/-! ## Removal -/

/-- Slot `slot` has been given back. -/
structure Removed (dev : BlockDevice) (id : Nat) (slot : Int) (dev' : BlockDevice) : Prop where
  freeFirst : dev'.cache.freeFirst = slot
  hashtable : dev'.cache.hashtable = Function.update dev.cache.hashtable id none
  size : dev'.cache.size = dev.cache.size
  id : ∀ i, (dev'.cache.buffer i).2.id = (dev.cache.buffer i).2.id
  content : ∀ i, (dev'.cache.buffer i).1 = (dev.cache.buffer i).1
  dirty : ∀ i, (dev'.cache.buffer i).2.isDirty = (dev.cache.buffer i).2.isDirty
  next : dev'.cache.links.next = Function.update (dev.cache.links.unlink (-1) slot).next slot dev.cache.freeFirst
  linksOk : LinksOk dev'.cache dev.cache.size

theorem Slots.run_remove (slots : Slots dev free) (hit : dev.cache.hashtable id = some slot) :
    ∃ dev', dev.remove id = some (.kSuccess, dev') ∧ Removed dev id slot dev' ∧
      Transferred (dev.dirtyWrite id slot) 0 dev.disk dev'.disk := by
  obtain ⟨lower, upper, -, -, inRange⟩ := slots.hash id slot hit
  have here := LRUCacheManager.status_of_range lower upper
  obtain ⟨disk, write, wrote⟩ := dev.run_writeBack id slot fun _ => slots.ready inRange
  have ok : LinksOk { dev.cache with hashtable := Function.update dev.cache.hashtable id none } dev.cache.size :=
    ⟨slots.links.bound, slots.links.first, slots.links.last, slots.links.links⟩
  obtain ⟨c₁, ran₁, ok₁, relinked₁⟩ := LRUCacheManager.lruRemove_links ok lower upper
  have links₁ := LRUCacheManager.links_lruRemove ran₁
  have link : IsLink dev.cache.size c₁.freeFirst := by
    rw [relinked₁.freeFirst]
    show IsLink dev.cache.size dev.cache.freeFirst
    have chain := slots.chain
    cases free with
    | nil => exact chain ▸ ⟨Int.le_refl _, by omega⟩
    | cons f rest =>
      have inside := slots.inside f List.mem_cons_self
      exact chain.1 ▸ ⟨by omega, inside.2⟩
  have before := (ok₁.links slot lower upper).1
  obtain ⟨c₂, ran₂, ok₂, relinked₂, first, last⟩ := LRUCacheManager.modify_links ok₁ lower upper
    (f := LRUCacheManager.setNext c₁.freeFirst) (fun _ => ⟨rfl, rfl, rfl⟩) before link
  have links₂ := LRUCacheManager.links_modify ran₂
  have relinked := relinked₁.trans relinked₂
  refine ⟨{ cache := { c₂ with freeFirst := slot }, disk }, ?_, ⟨rfl, relinked.hashtable, relinked.size, relinked.id,
    relinked.content, relinked.isDirty, ?_, ⟨ok₂.bound, ok₂.first, ok₂.last, ok₂.links⟩⟩, wrote⟩
  · simp only [BlockDevice.remove, hit, here, Option.bind_eq_bind, Option.bind_some, write, reduceCtorEq, if_false,
      ran₁, LRUCacheManager.freeAdd, ran₂, Option.pure_def]
  · have next := congrArg Links.next links₂
    rw [links₁, relinked₁.freeFirst] at next
    exact next

/-- A removal that leaves the chain as it is puts the slot before it. -/
theorem Removed.slots (removed : Removed dev id slot dev') (slots : Slots dev free)
    (hit : dev.cache.hashtable id = some slot) (faults : dev'.disk.faults = dev.disk.faults)
    (count : dev'.disk.count = dev.disk.count) (safe : dev.cache.UnlinksFree free slot) :
    Slots dev' (slot :: free) := by
  obtain ⟨lower, upper, out, named, -⟩ := slots.hash id slot hit
  constructor
  case steady => exact faults ▸ slots.steady
  case nonempty => exact removed.size ▸ slots.nonempty
  case links =>
    rw [removed.size]
    exact removed.linksOk
  case chain =>
    refine ⟨removed.freeFirst, by omega, ?_⟩
    rw [removed.next, Function.update_self]
    -- the chain behind the slot is as before, since its old neighbours are not on it
    refine slots.chain.congr fun i onChain => ?_
    have other : i ≠ slot := fun same => out (same ▸ onChain)
    rw [Function.update_of_ne other, Links.next_unlink other]
    split
    next before =>
      obtain ⟨rfl, -⟩ := before
      exact (safe onChain).symm
    next => rfl
  case nodup => exact List.nodup_cons.mpr ⟨out, slots.nodup⟩
  case inside =>
    rw [removed.size]
    exact fun i member => (List.mem_cons.mp member).elim (fun is => is ▸ ⟨lower, upper⟩) (slots.inside i)
  case hash =>
    intro b i mapped
    rw [removed.hashtable, Function.update_apply] at mapped
    rw [removed.size, removed.id, count]
    split at mapped
    · cases mapped
    next other =>
      obtain ⟨low, high, out', rest⟩ := slots.hash b i mapped
      refine ⟨low, high, List.not_mem_cons_of_ne_of_not_mem (fun is => other ?_) out', rest⟩
      exact slots.inj (is ▸ mapped) hit
  case held =>
    intro i low high out'
    have ne : i ≠ slot := fun is => out' (is ▸ List.mem_cons_self)
    have mapped := slots.held i low (removed.size ▸ high) fun onChain => out' (List.mem_cons_of_mem _ onChain)
    rw [removed.hashtable, removed.id, Function.update_apply, if_neg, mapped]
    intro is
    rw [is, hit] at mapped
    exact ne (Option.some.inj mapped).symm
  case victim => exact fun none => absurd none (List.cons_ne_nil _ _)

/-- A removal that is not safe damages the free chain. -/
theorem Slots.removed_safe (slots : Slots dev free) (removed : Removed dev id slot dev')
    (hit : dev.cache.hashtable id = some slot) (parts : Partitioned dev'.cache) :
    dev.cache.UnlinksFree free slot := by
  intro before
  obtain ⟨lower, upper, out, -⟩ := slots.hash id slot hit
  obtain ⟨free', chain, inside, parts⟩ := parts
  rw [removed.size] at inside parts
  rw [removed.hashtable] at parts
  rw [removed.freeFirst] at chain
  -- the slot is the first one of the chain, and no other one
  cases free' with
  | nil =>
    replace chain : slot = -1 := chain
    omega
  | cons f rest =>
    obtain ⟨rfl, -, chain⟩ := chain
    rw [removed.next, Function.update_self] at chain
    have fresh : slot ∉ rest := by
      obtain ⟨once, -⟩ | ⟨off, -⟩ := parts slot lower upper
      · rw [List.count_cons_self] at once
        exact List.count_eq_zero.mp (by omega)
      · exact absurd List.mem_cons_self off
    have members : ∀ i, i ∈ rest ↔ i ∈ free := fun i => by
      by_cases is : i = slot
      · exact iff_of_false (is ▸ fresh) (is ▸ out)
      have tail : i ∈ rest ↔ i ∈ slot :: rest := by rw [List.mem_cons, or_iff_right is]
      rw [tail]
      by_cases range : 0 ≤ i ∧ i < dev.cache.size
      · refine slots.member_iff range.1 range.2 (parts i range.1 range.2) fun b => ?_
        rw [Function.update_apply]
        split
        next same =>
          refine iff_of_false (fun none => by cases none) fun mapped => is ?_
          rw [same, hit] at mapped
          exact (Option.some.inj mapped).symm
        next => rfl
      · exact iff_of_false (fun onChain => range (inside i onChain)) fun onChain => range (slots.inside i onChain)
    have low := (slots.inside _ before).1
    have next : ∀ i, i ≠ slot → Function.update (dev.cache.links.unlink (-1) slot).next slot dev.cache.freeFirst i =
        if i = dev.cache.links.prev slot ∧ i ≠ -1 then dev.cache.links.next slot else dev.cache.links.next i :=
      fun i other => by rw [Function.update_of_ne other, Links.next_unlink other]
    have kept := slots.chain.next_eq slots.nodup chain members before fun i onChain other => by
      rw [next i fun same => out (same ▸ onChain), if_neg fun both => other both.1]
    have new := next (dev.cache.buffer slot).2.prev fun same => out (same ▸ before)
    rw [if_pos ⟨rfl, by omega⟩, kept] at new
    exact new

/-! ## Writing back -/

/-- `sync_all` writes every dirty slot, and changes nothing in the cache. -/
theorem run_syncFrom (dev : BlockDevice) (steady : ∀ n, dev.disk.faults n = false) (n i : Nat) (all : i + n = dev.cache.size)
    (onDisk : ∀ slot : Int, 0 ≤ slot → slot < dev.cache.size → (dev.cache.buffer slot).2.isDirty = true →
      uint32 (dev.cache.buffer slot).2.id < dev.disk.count) :
    ∃ disk : RawDisk, BlockDevice.syncFrom n i dev = some (.kSuccess, { dev with disk }) ∧
      Transferred ((List.range' i n).flatMap fun j : Nat => dev.dirtyWrite (uint32 (dev.cache.buffer j).2.id) j) 0
        dev.disk disk := by
  induction n generalizing dev i with
  | zero => exact ⟨dev.disk, rfl, .refl _⟩
  | succ n ih =>
    have here := LRUCacheManager.status_of_range (c := dev.cache) (show (0 : Int) ≤ i by omega)
      (show (i : Int) < dev.cache.size by omega)
    obtain ⟨disk, write, wrote⟩ := dev.run_writeBack (uint32 (dev.cache.buffer i).2.id) i fun dirty => by
        simp only [RawDisk.ready, onDisk i (by omega) (by omega) dirty, steady, decide_true, Bool.not_false, Bool.and_self]
    obtain ⟨disk', rest, wrote'⟩ := ih { dev with disk } (wrote.faults ▸ steady) (i + 1)
      (by show i + 1 + n = dev.cache.size; omega) (wrote.count ▸ onDisk)
    refine ⟨disk', ?_, ?_⟩
    · simp only [BlockDevice.syncFrom, here, Option.bind_eq_bind, Option.bind_some, write, reduceCtorEq, if_false]
      exact_mod_cast rest
    · rw [List.range'_succ, List.flatMap_cons]
      exact wrote.trans wrote'

end

/-! ## One call -/

/-- What the cache holds is what was last upserted, and every dirty slot can be written back. -/
structure Current (dev : BlockDevice) (free : List Int) (upserts : List (Nat × Block)) : Prop where
  slots : Slots dev free
  latest : ∀ b slot, dev.cache.hashtable b = some slot → (dev.cache.buffer slot).2.isDirty = true →
    upserts.lookup b = some (dev.cache.buffer slot).1
  onDisk : ∀ slot ∈ free, (dev.cache.buffer slot).2.isDirty = true →
    uint32 (dev.cache.buffer slot).2.id < dev.disk.count

namespace Current

variable {dev dev' : BlockDevice} {free : List Int} {upserts : List (Nat × Block)} {slot : Int} {id : Nat}

theorem dirtyWrite (current : Current dev free upserts) (mapped : dev.cache.hashtable id = some slot) :
    ∀ w ∈ dev.dirtyWrite id slot, upserts.lookup w.1 = some w.2 := by
  intro w member
  rw [BlockDevice.dirtyWrite] at member
  split at member
  next dirty =>
    obtain rfl := List.mem_singleton.mp member
    exact current.latest id slot mapped dirty
  next => cases member

theorem evictWrite (current : Current dev free upserts) : ∀ w ∈ dev.evictWrite, upserts.lookup w.1 = some w.2 := by
  intro w member
  rw [BlockDevice.evictWrite] at member
  split at member
  next full =>
    obtain rfl := current.slots.free_eq_nil.mpr full.1
    have lower : 0 ≤ dev.cache.lruLast := by
      have := current.slots.links.last.1
      omega
    exact current.dirtyWrite (current.slots.held _ lower current.slots.links.last.2 List.not_mem_nil) w member
  next => cases member

theorem access_issued (current : Current dev free upserts) (a : Access) :
    ∀ w ∈ a.issued dev, upserts.lookup w.1 = some w.2 := by
  cases a with
  | upsert id blk =>
    rw [Access.issued]
    split
    · exact current.evictWrite
    · exact fun w none => by cases none
  | get id => exact fun w none => by cases none
  | sync id =>
    rw [Access.issued]
    cases mapped : dev.cache.hashtable id with
    | none => exact fun w none => by cases none
    | some slot => exact current.dirtyWrite mapped

theorem lookup_noted (a : Access) (upserts : List (Nat × Block)) (other : id ≠ a.id) :
    ((CacheCall.access a).noted upserts).lookup id = upserts.lookup id := by
  cases a with
  | upsert id' blk =>
    have ne : id ≠ id' := other
    rw [CacheCall.noted, List.lookup_cons, beq_false_of_ne ne]
  | get id => rfl
  | sync id => rfl

/-- What an access leaves in the slot of its block is current. -/
theorem leaves {a : Access} {e e' : Block × BlockStatus} (leaves : a.Leaves e e')
    (before : (∃ blk, a = .upsert a.id blk) ∨ (e.2.isDirty = true → upserts.lookup a.id = some e.1))
    (dirty : e'.2.isDirty = true) : ((CacheCall.access a).noted upserts).lookup a.id = some e'.1 := by
  cases a with
  | upsert id blk =>
    rw [CacheCall.noted, Access.id, List.lookup_cons, beq_self_eq_true, leaves.1]
  | get id =>
    have old := before.resolve_left fun upsert => by
      obtain ⟨blk, is⟩ := upsert
      cases is
    rw [leaves.1]
    exact old (leaves.2 ▸ dirty)
  | sync id =>
    rw [leaves.2] at dirty
    cases dirty

theorem accessed (current : Current dev free upserts) {a : Access} (hit : dev.cache.hashtable a.id = some slot)
    (slots : Slots dev' free) (accessed : Accessed dev slot dev') (count : dev'.disk.count = dev.disk.count)
    (leaves : a.Leaves (dev.cache.buffer slot) (dev'.cache.buffer slot)) :
    Current dev' free ((CacheCall.access a).noted upserts) := by
  refine ⟨slots, fun b i mapped dirty => ?_, fun i onChain dirty => ?_⟩
  · rw [accessed.hashtable] at mapped
    by_cases at' : i = slot
    · subst at'
      obtain rfl := current.slots.inj mapped hit
      exact Current.leaves leaves (.inr fun old => current.latest _ _ hit old) dirty
    · have other : b ≠ a.id := fun is => at' (Option.some.inj ((is ▸ mapped).symm.trans hit))
      rw [accessed.dirty i at'] at dirty
      rw [lookup_noted a upserts other, accessed.content i at']
      exact current.latest b i mapped dirty
  · have other : i ≠ slot := fun is => (current.slots.hash _ slot hit).2.2.1 (is ▸ onChain)
    rw [accessed.dirty i other] at dirty
    rw [accessed.id, count]
    exact current.onDisk i onChain dirty

theorem entered (current : Current dev free upserts) {a : Access} {blk : Block} (is : a = .upsert a.id blk)
    (slots : Slots dev' free.tail) (entered : Entered dev free a.id slot dev')
    (count : dev'.disk.count = dev.disk.count)
    (leaves : a.Leaves (dev.cache.buffer slot) (dev'.cache.buffer slot)) :
    Current dev' free.tail ((CacheCall.access a).noted upserts) := by
  refine ⟨slots, fun b i mapped dirty => ?_, fun i onChain dirty => ?_⟩
  · rw [entered.hashtable] at mapped
    split at mapped
    next own =>
      obtain rfl := Option.some.inj mapped
      rw [own]
      exact Current.leaves leaves (.inl ⟨blk, is⟩) dirty
    next other =>
      split at mapped
      · cases mapped
      next taken =>
        have ne : i ≠ slot := fun same => taken (same ▸ mapped)
        rw [entered.dirty i ne] at dirty
        rw [lookup_noted a upserts other, entered.content i ne]
        exact current.latest b i mapped dirty
  · have other : i ≠ slot := by
      rintro rfl
      cases entered.place with
      | inl first =>
        cases free with
        | nil => cases first
        | cons f rest =>
          obtain rfl := Option.some.inj first
          exact (List.nodup_cons.mp current.slots.nodup).1 onChain
      | inr none => exact List.not_mem_nil (none.1 ▸ onChain)
    rw [entered.dirty i other] at dirty
    rw [entered.id i other, count]
    exact current.onDisk i (List.mem_of_mem_tail onChain) dirty

theorem removed (current : Current dev free upserts) (hit : dev.cache.hashtable id = some slot)
    (slots : Slots dev' (slot :: free)) (removed : Removed dev id slot dev')
    (count : dev'.disk.count = dev.disk.count) : Current dev' (slot :: free) upserts := by
  refine ⟨slots, fun b i mapped dirty => ?_, fun i onChain dirty => ?_⟩
  · rw [removed.hashtable, Function.update_apply] at mapped
    rw [removed.dirty] at dirty
    rw [removed.content]
    split at mapped
    · cases mapped
    · exact current.latest b i mapped dirty
  · rw [removed.dirty] at dirty
    rw [removed.id, count]
    cases List.mem_cons.mp onChain with
    | inl is =>
      obtain ⟨-, -, -, named, exists'⟩ := current.slots.hash id slot hit
      rw [is, named]
      exact exists'
    | inr before => exact current.onDisk i before dirty

/-- Every dirty slot can be written back. -/
theorem inRange (current : Current dev free upserts) (lower : 0 ≤ slot) (upper : slot < dev.cache.size)
    (dirty : (dev.cache.buffer slot).2.isDirty = true) : uint32 (dev.cache.buffer slot).2.id < dev.disk.count := by
  by_cases onChain : slot ∈ free
  · exact current.onDisk slot onChain dirty
  · exact (current.slots.hash _ slot (current.slots.held slot lower upper onChain)).2.2.2.2

theorem run_syncAll (current : Current dev free upserts) :
    ∃ disk : RawDisk, dev.syncAll = some (.kSuccess, { dev with disk }) ∧
      Transferred (CacheCall.syncAll.issued dev) 0 dev.disk disk := by
  rw [CacheCall.issued, List.range_eq_range']
  exact run_syncFrom dev current.slots.steady dev.cache.size 0 (Nat.zero_add _) fun slot lower upper dirty =>
    current.inRange lower upper dirty

/-- What `sync_all` writes is current if that is so for the slots of the free chain. -/
theorem syncAll_issued (current : Current dev free upserts) :
    (∀ w ∈ CacheCall.syncAll.issued dev, upserts.lookup w.1 = some w.2) ↔ CacheCall.syncAll.Safe upserts dev := by
  constructor
  · intro latest free' chain slot onChain dirty
    rw [chain.unique current.slots.chain] at onChain
    obtain ⟨lower, upper⟩ := current.slots.inside slot onChain
    refine latest (uint32 (dev.cache.buffer slot).2.id, (dev.cache.buffer slot).1) (List.mem_flatMap.mpr
      ⟨slot.toNat, List.mem_range.mpr (by omega), ?_⟩)
    rw [Int.toNat_of_nonneg lower, BlockDevice.dirtyWrite, if_pos dirty]
    exact List.mem_singleton_self _
  · intro safe w member
    obtain ⟨i, inside, member⟩ := List.mem_flatMap.mp member
    have upper := List.mem_range.mp inside
    by_cases onChain : (i : Int) ∈ free
    · rw [BlockDevice.dirtyWrite] at member
      split at member
      next dirty =>
        obtain rfl := List.mem_singleton.mp member
        exact safe free current.slots.chain i onChain dirty
      next => cases member
    · exact current.dirtyWrite (current.slots.held i (by omega) (by omega) onChain) w member

/-- A call does what the specification says exactly if it is safe. -/
theorem run_call (current : Current dev free upserts) (c : CacheCall) (inRange : c.InRange dev.disk.count) :
    ∃ ret dev', c.run dev = some (ret, dev') ∧ Transferred (c.issued dev) (c.fetched dev) dev.disk dev'.disk ∧
      (c.Safe upserts dev → (∀ w ∈ c.issued dev, upserts.lookup w.1 = some w.2) ∧
        ∃ free', Current dev' free' (c.noted upserts)) ∧
      ((∀ w ∈ c.issued dev, upserts.lookup w.1 = some w.2) → Partitioned dev'.cache → c.Safe upserts dev) := by
  have slots := current.slots
  cases c with
  | access a =>
    obtain ⟨ret, dev', ran, outcome, wrote⟩ := slots.run_access a inRange
    have issued := current.access_issued a
    refine ⟨ret, dev', ran, wrote, fun safe => ⟨issued, ?_⟩, fun _ parts slot mapped => ?_⟩
    · cases outcome with
      | @hit slot _ hit slots' accessed leaves =>
        -- a hit unlinks the slot, which is safe when its old neighbours are not on the free chain
        have free' := slots' (slots.unlinkSafe_iff.mp (safe slot hit))
        exact ⟨free, current.accessed hit free' accessed wrote.count leaves⟩
      | miss _ noUpsert =>
        refine ⟨free, ?_⟩
        cases a with
        | upsert id blk => exact absurd rfl (noUpsert id blk)
        | get id => exact current
        | sync id => exact current
      | enter _ is slots' entered leaves => exact ⟨_, current.entered is slots' entered wrote.count leaves⟩
    · cases outcome with
      | @hit slot' _ hit _ accessed _ =>
        obtain rfl : slot' = slot := Option.some.inj (hit.symm.trans mapped)
        exact slots.unlinkSafe_iff.mpr (slots.accessed_safe accessed (slots.hash _ _ hit).2.2.1 parts)
      | miss miss _ =>
        rw [miss] at mapped
        cases mapped
      | enter miss _ _ _ _ =>
        rw [miss] at mapped
        cases mapped
  | remove id =>
    cases found : dev.cache.hashtable id with
    | none =>
      refine ⟨.kFail, dev, ?_, ?_, fun _ => ⟨?_, free, current⟩, fun _ _ slot mapped => ?_⟩
      · simp only [CacheCall.run, BlockDevice.remove, found]
      · simp only [CacheCall.issued, CacheCall.fetched, found]
        exact .refl _
      · simp only [CacheCall.issued, found]
        exact fun w none => by cases none
      · rw [found] at mapped
        cases mapped
    -- the slot goes to the head of the free chain
    | some slot =>
      obtain ⟨dev', ran, removed, wrote⟩ := slots.run_remove found
      have issued : (CacheCall.remove id).issued dev = dev.dirtyWrite id slot := by
        simp only [CacheCall.issued, found]
      rw [issued]
      refine ⟨_, dev', ran, wrote, fun safe => ⟨current.dirtyWrite found, slot :: free, ?_⟩, fun _ parts slot' mapped => ?_⟩
      · have free' := removed.slots slots found wrote.faults wrote.count (slots.unlinkSafe_iff.mp (safe slot found))
        exact current.removed found free' removed wrote.count
      · obtain rfl : slot = slot' := Option.some.inj (found.symm.trans mapped)
        exact slots.unlinkSafe_iff.mpr (slots.removed_safe removed found parts)
  | syncAll =>
    obtain ⟨disk, ran, wrote⟩ := current.run_syncAll
    refine ⟨_, _, ran, wrote, fun safe => ⟨current.syncAll_issued.mpr safe, free, ?_⟩,
      fun latest _ => current.syncAll_issued.mp latest⟩
    exact ⟨⟨wrote.faults ▸ slots.steady, slots.nonempty, slots.links, slots.chain, slots.nodup, slots.inside,
      wrote.count ▸ slots.hash, slots.held, slots.victim⟩, current.latest, wrote.count ▸ current.onDisk⟩

theorem init {cacheSize : Nat} {disk : RawDisk} (capacity : kBlockSize ≤ cacheSize) (steady : ∀ n, disk.faults n = false) :
    Current (.new cacheSize disk) ((List.range' 0 (cacheSize / kBlockSize)).map fun i : Nat => (i : Int)) [] where
  slots := .init capacity steady
  latest := fun b slot mapped => by cases mapped
  onDisk := fun slot _ dirty => by cases dirty

end Current

/-! ## Runs -/

theorem keepsSlots_of_current {dev : BlockDevice} {free : List Int} {upserts : List (Nat × Block)} {calls : List CacheCall}
    (current : Current dev free upserts) (inRange : ∀ c ∈ calls, c.InRange dev.disk.count) :
    KeepsSlots calls upserts dev ↔ StepsSafe calls upserts dev := by
  induction calls generalizing dev free upserts with
  | nil => exact iff_of_true current.slots.partitioned trivial
  | cons c rest ih =>
    obtain ⟨ret, dev', ran, wrote, good, safe⟩ := current.run_call c (inRange c List.mem_cons_self)
    have later : ∀ c ∈ rest, c.InRange dev'.disk.count := fun c member =>
      wrote.count ▸ inRange c (List.mem_cons_of_mem _ member)
    constructor
    · rintro ⟨-, latest, ret', dev'', ran', keeps⟩
      rw [ran] at ran'
      cases ran'
      have parts : Partitioned dev'.cache := by
        cases rest with
        | nil => exact keeps
        | cons c' rest => exact keeps.1
      have isSafe := safe latest parts
      obtain ⟨-, free', current'⟩ := good isSafe
      refine ⟨isSafe, fun ret' dev'' ran' => ?_⟩
      rw [ran] at ran'
      cases ran'
      exact (ih current' later).mp keeps
    · rintro ⟨isSafe, next⟩
      obtain ⟨latest, free', current'⟩ := good isSafe
      exact ⟨current.slots.partitioned, latest, ret, dev', ran, (ih current' later).mpr (next ret dev' ran)⟩

/-- The slots stay partitioned, and only the latest version of a block is ever written, exactly if every
call is safe. -/
theorem keepsSlots_iff {cacheSize : Nat} (capacity : kBlockSize ≤ cacheSize) {disk : RawDisk}
    (steady : ∀ n, disk.faults n = false) (calls : List CacheCall) (inRange : ∀ c ∈ calls, c.InRange disk.count) :
    KeepsSlots calls [] (.new cacheSize disk) ↔ StepsSafe calls [] (.new cacheSize disk) :=
  keepsSlots_of_current (.init capacity steady) inRange

/-- A slot at the front of the recency list is always safe to unlink. -/
theorem LRUCacheManager.unlinkSafe_of_front {c : LRUCacheManager} {id : Nat} (slot : Int)
    (mapped : c.hashtable id = some slot) (front : (c.buffer slot).2.prev = -1) :
    ∀ slot, c.hashtable id = some slot → c.UnlinkSafe slot := by
  intro slot' mapped' free chain onChain
  obtain rfl := Option.some.inj (mapped.symm.trans mapped')
  exact absurd (front ▸ onChain) chain.ne_nil

theorem StepsSafe.cons {c : CacheCall} {calls : List CacheCall} {upserts : List (Nat × Block)} {dev dev' : BlockDevice}
    {ret : Ret} (safe : c.Safe upserts dev) (ran : c.run dev = some (ret, dev'))
    (rest : StepsSafe calls (c.noted upserts) dev') : StepsSafe (c :: calls) upserts dev := by
  refine ⟨safe, fun ret' dev'' ran' => ?_⟩
  rw [ran] at ran'
  cases ran'
  exact rest

/-- Two slots: a block is put in, read and removed. -/
theorem keepsSlots_iff_removed : KeepsSlots
    [.syncAll, .access (.upsert 5 Bytes.zero), .access (.get 5), .remove 5] [] (.new 8192 (blankDisk 8)) := by
  refine (keepsSlots_iff (by decide) (fun _ => rfl) _ ?_).mpr (.cons ?_ rfl (.cons ?_ rfl (.cons ?_ rfl (.cons ?_ rfl trivial))))
  · simp [CacheCall.InRange, Access.InRange, Access.id, blankDisk]
  · exact fun free chain slot onChain dirty => by cases dirty
  · exact fun slot mapped => by cases mapped
  · exact LRUCacheManager.unlinkSafe_of_front 0 rfl rfl
  · exact LRUCacheManager.unlinkSafe_of_front 0 rfl rfl

/-- Two slots: block 6 is removed, then block 5, and block 6 comes back in the slot of block 5. -/
def reusedCalls : List CacheCall :=
  [.access (.upsert 5 Bytes.zero), .access (.upsert 6 Bytes.zero), .remove 6, .remove 5,
    .access (.upsert 6 fun _ => 1), .syncAll]

/-- The old version of block 6 is written after the new one. -/
theorem old_version_written : ¬ ∀ (cacheSize : Nat) (disk : RawDisk), kBlockSize ≤ cacheSize →
    (∀ n, disk.faults n = false) → ∀ calls : List CacheCall, (∀ c ∈ calls, c.InRange disk.count) →
      KeepsSlots calls [] (.new cacheSize disk) := by
  intro always
  have inRange : ∀ c ∈ reusedCalls, c.InRange (blankDisk 8).count := by
    simp [reusedCalls, CacheCall.InRange, Access.InRange, Access.id, blankDisk]
  have keeps := always 8192 (blankDisk 8) (by decide) (fun _ => rfl) reusedCalls inRange
  have safe := (keepsSlots_of_current (.init (by decide) fun _ => rfl) inRange).mp keeps
  have last := ((((safe.2 _ _ rfl).2 _ _ rfl).2 _ _ rfl).2 _ _ rfl).2 _ _ rfl
  have old := last.1 [1] ⟨rfl, by decide, rfl⟩ 1 (List.mem_singleton_self _) rfl
  have same := congrFun (Option.some.inj (Eq.trans rfl old : some (fun _ => 1 : Block) = _)) ⟨0, by decide⟩
  exact absurd same (by decide)

end Sbfs
