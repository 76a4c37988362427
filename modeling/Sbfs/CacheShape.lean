import Sbfs.LruCache

/-! # The shape of the block cache

`Shape` ties the hash table, the slots, the free chain and the recency list together,
whatever transfers fail.  The recency list may well be damaged by an eviction, which
clears the links of the victim before it is unlinked; all that is kept of it is that links
stay inside the used slots and that a used cache always has a last slot.  That is enough to
find a victim, and the rest does not depend on which slot the victim is.

An operation is a few changes of one slot (`Shape.setSlot`) or of one key of the hash table
(`Shape.forget`, `Shape.enter`). -/

namespace Sbfs

/-! ## Links -/

/-- A link is `-1` or one of the first `used` slots. -/
def IsLink (used z : Int) : Prop := -1 ≤ z ∧ z < used

structure LinksOk (c : LRUCacheManager) (used : Int) : Prop where
  bound : used ≤ c.size
  first : IsLink used c.lruFirst
  last : IsLink used c.lruLast
  links : ∀ i, 0 ≤ i → i < used →
    IsLink used (c.buffer i).2.prev ∧ IsLink used (c.buffer i).2.next

/-- `c'` differs from `c` in the links of the first `used` slots at most. -/
structure Relinked (used : Int) (c c' : LRUCacheManager) : Prop where
  freeFirst : c'.freeFirst = c.freeFirst
  hashtable : c'.hashtable = c.hashtable
  size : c'.size = c.size
  content : ∀ i, (c'.buffer i).1 = (c.buffer i).1
  status : ∀ i, (c'.buffer i).2.status = (c.buffer i).2.status
  id : ∀ i, (c'.buffer i).2.id = (c.buffer i).2.id
  above : ∀ i, used ≤ i → c'.buffer i = c.buffer i

namespace Relinked

variable {used : Int} {c d e : LRUCacheManager}

theorem refl (used : Int) (c : LRUCacheManager) : Relinked used c c :=
  ⟨rfl, rfl, rfl, fun _ => rfl, fun _ => rfl, fun _ => rfl, fun _ _ => rfl⟩

theorem trans (first : Relinked used c d) (second : Relinked used d e) : Relinked used c e where
  freeFirst := second.freeFirst.trans first.freeFirst
  hashtable := second.hashtable.trans first.hashtable
  size := second.size.trans first.size
  content i := (second.content i).trans (first.content i)
  status i := (second.status i).trans (first.status i)
  id i := (second.id i).trans (first.id i)
  above i h := (second.above i h).trans (first.above i h)

theorem isDirty (relinked : Relinked used c d) (i : Int) :
    (d.buffer i).2.isDirty = (c.buffer i).2.isDirty := by
  simp only [BlockStatus.isDirty, relinked.status i]

end Relinked

namespace LRUCacheManager

theorem modify_of_range {c : LRUCacheManager} {slot : Int} (lower : 0 ≤ slot)
    (upper : slot < c.size) (f : Block × BlockStatus → Block × BlockStatus) :
    c.modify slot f =
      some { c with buffer := Function.update c.buffer slot (f (c.buffer slot)) } := by
  rw [modify, if_pos ⟨lower, upper⟩]

theorem status_of_range {c : LRUCacheManager} {slot : Int} (lower : 0 ≤ slot)
    (upper : slot < c.size) : c.status slot = some (c.buffer slot).2 := by
  rw [status, if_pos ⟨lower, upper⟩]

/-- Changing the links of one used slot. -/
theorem modify_links {c : LRUCacheManager} {used slot : Int} (ok : LinksOk c used)
    (lower : 0 ≤ slot) (upper : slot < used) {f : Block × BlockStatus → Block × BlockStatus}
    (keeps : ∀ e, (f e).1 = e.1 ∧ (f e).2.status = e.2.status ∧ (f e).2.id = e.2.id)
    (prev : IsLink used (f (c.buffer slot)).2.prev)
    (next : IsLink used (f (c.buffer slot)).2.next) :
    ∃ c', c.modify slot f = some c' ∧ LinksOk c' used ∧ Relinked used c c' ∧
      c'.lruFirst = c.lruFirst ∧ c'.lruLast = c.lruLast := by
  have bound := ok.bound
  refine ⟨_, modify_of_range lower (by omega) f, ⟨ok.bound, ok.first, ok.last, ?_⟩,
    ⟨rfl, rfl, rfl, ?_, ?_, ?_, ?_⟩, rfl, rfl⟩
  · intro i lo hi
    by_cases same : i = slot
    · subst same
      simpa using ⟨prev, next⟩
    · simpa [Function.update_of_ne same] using ok.links i lo hi
  · intro i
    by_cases same : i = slot
    · subst same
      simpa using (keeps _).1
    · simp [Function.update_of_ne same]
  · intro i
    by_cases same : i = slot
    · subst same
      simpa using (keeps _).2.1
    · simp [Function.update_of_ne same]
  · intro i
    by_cases same : i = slot
    · subst same
      simpa using (keeps _).2.2
    · simp [Function.update_of_ne same]
  · intro i h
    simp [Function.update_of_ne (show i ≠ slot by omega)]

/-- The guarded assignment, at a link that is allowed. -/
theorem modifyLinked_links {c : LRUCacheManager} {used slot : Int} (ok : LinksOk c used)
    (link : IsLink used slot) {f : Block × BlockStatus → Block × BlockStatus}
    (keeps : ∀ e, (f e).1 = e.1 ∧ (f e).2.status = e.2.status ∧ (f e).2.id = e.2.id)
    (links : ∀ e, IsLink used e.2.prev → IsLink used e.2.next →
      IsLink used (f e).2.prev ∧ IsLink used (f e).2.next) :
    ∃ c', c.modifyLinked slot f = some c' ∧ LinksOk c' used ∧ Relinked used c c' ∧
      c'.lruFirst = c.lruFirst ∧ c'.lruLast = c.lruLast := by
  rw [modifyLinked]
  split
  next present =>
    have inside : 0 ≤ slot := by
      have := link.1
      omega
    obtain ⟨prev, next⟩ := ok.links slot inside link.2
    obtain ⟨prev', next'⟩ := links _ prev next
    exact modify_links ok inside link.2 keeps prev' next'
  next => exact ⟨c, rfl, ok, .refl _ _, rfl, rfl⟩

theorem lruRemove_links {c : LRUCacheManager} {used slot : Int} (ok : LinksOk c used)
    (lower : 0 ≤ slot) (upper : slot < used) :
    ∃ c', c.lruRemove slot = some c' ∧ LinksOk c' used ∧ Relinked used c c' := by
  have bound := ok.bound
  obtain ⟨prevLink, nextLink⟩ := ok.links slot lower upper
  generalize heads : ({ c with
    lruFirst := if slot = c.lruFirst then (c.buffer slot).2.next else c.lruFirst
    lruLast := if slot = c.lruLast then (c.buffer slot).2.prev else c.lruLast } :
      LRUCacheManager) = c₁
  have ok₁ : LinksOk c₁ used := by
    subst heads
    refine ⟨ok.bound, ?_, ?_, ok.links⟩
    · show IsLink used (if _ then _ else _)
      split
      · exact nextLink
      · exact ok.first
    · show IsLink used (if _ then _ else _)
      split
      · exact prevLink
      · exact ok.last
  have relinked₁ : Relinked used c c₁ := by
    subst heads
    exact ⟨rfl, rfl, rfl, fun _ => rfl, fun _ => rfl, fun _ => rfl, fun _ _ => rfl⟩
  obtain ⟨c₂, eq₂, ok₂, relinked₂, -⟩ := modifyLinked_links ok₁ nextLink
    (f := setPrev (c.buffer slot).2.prev) (fun e => ⟨rfl, rfl, rfl⟩) (fun e _ h => ⟨prevLink, h⟩)
  have bound₂ := ok₂.bound
  obtain ⟨prevLink₂, nextLink₂⟩ := ok₂.links slot lower upper
  obtain ⟨c₃, eq₃, ok₃, relinked₃, -⟩ := modifyLinked_links ok₂ prevLink₂
    (f := setNext (c₂.buffer slot).2.next) (fun e => ⟨rfl, rfl, rfl⟩) (fun e h _ => ⟨h, nextLink₂⟩)
  have none : IsLink used (-1) := ⟨by omega, by omega⟩
  obtain ⟨c₄, eq₄, ok₄, relinked₄, -⟩ := modify_links ok₃ lower upper
    (f := fun e => setPrev (-1) (setNext (-1) e)) (fun e => ⟨rfl, rfl, rfl⟩) none none
  refine ⟨c₄, ?_, ok₄, ((relinked₁.trans relinked₂).trans relinked₃).trans relinked₄⟩
  simp only [lruRemove, status_of_range lower (by omega : slot < c.size), Option.bind_eq_bind,
    Option.bind_some, heads, eq₂, status_of_range lower (by omega : slot < c₂.size), eq₃, eq₄]

theorem lruAdd_links {c : LRUCacheManager} {used slot : Int} (ok : LinksOk c used)
    (lower : 0 ≤ slot) (upper : slot < used) :
    ∃ c', c.lruAdd slot = some c' ∧ LinksOk c' used ∧ Relinked used c c' ∧ c'.lruLast ≠ -1 := by
  have none : IsLink used (-1) := ⟨by omega, by omega⟩
  have here : IsLink used slot := ⟨by omega, upper⟩
  obtain ⟨c₁, eq₁, ok₁, relinked₁, -⟩ := modify_links ok lower upper
    (f := fun e => setPrev (-1) (setNext c.lruFirst e)) (fun e => ⟨rfl, rfl, rfl⟩) none ok.first
  obtain ⟨c₂, eq₂, ok₂, relinked₂, -⟩ := modifyLinked_links ok₁ ok₁.first
    (f := setPrev slot) (fun e => ⟨rfl, rfl, rfl⟩) (fun e _ h => ⟨here, h⟩)
  have relinked := relinked₁.trans relinked₂
  refine ⟨{ c₂ with lruFirst := slot, lruLast := if c₂.lruLast = -1 then slot else c₂.lruLast },
    ?_, ⟨ok₂.bound, here, ?_, ok₂.links⟩, ⟨relinked.freeFirst, relinked.hashtable, relinked.size,
      relinked.content, relinked.status, relinked.id, relinked.above⟩, ?_⟩
  · simp only [lruAdd, eq₁, Option.bind_eq_bind, Option.bind_some, eq₂, Option.pure_def]
  · show IsLink used (if _ then _ else _)
    split
    · exact here
    · exact ok₂.last
  · show (if _ then _ else _) ≠ _
    split
    · omega
    · assumption

theorem touch_links {c : LRUCacheManager} {used slot : Int} (ok : LinksOk c used)
    (lower : 0 ≤ slot) (upper : slot < used) :
    ∃ c', c.touch slot = some c' ∧ LinksOk c' used ∧ Relinked used c c' ∧ c'.lruLast ≠ -1 := by
  obtain ⟨c₁, eq₁, ok₁, relinked₁⟩ := lruRemove_links ok lower upper
  obtain ⟨c₂, eq₂, ok₂, relinked₂, last⟩ := lruAdd_links ok₁ lower upper
  exact ⟨c₂, by simp [touch, eq₁, eq₂], ok₂, relinked₁.trans relinked₂, last⟩

end LRUCacheManager

/-! ## Content -/

/-- `dev'` holds the same logical content as `dev`, on a disk of the same size to which
only logical content has been written. -/
structure SameContent (dev dev' : BlockDevice) : Prop where
  logical : ∀ b, dev'.logical b = dev.logical b
  count : dev'.disk.count = dev.disk.count
  disk : ∀ b, dev'.disk.blocks b = dev.disk.blocks b ∨ dev'.disk.blocks b = dev.logical b

theorem SameContent.refl (dev : BlockDevice) : SameContent dev dev :=
  ⟨fun _ => rfl, rfl, fun _ => .inl rfl⟩

theorem SameContent.trans {dev dev' dev'' : BlockDevice} (first : SameContent dev dev')
    (second : SameContent dev' dev'') : SameContent dev dev'' := by
  refine ⟨fun b => (second.logical b).trans (first.logical b), second.count.trans first.count, ?_⟩
  intro b
  rcases second.disk b with kept | written
  · rw [kept]
    exact first.disk b
  · exact .inr (written.trans (first.logical b))

theorem SameContent.tick (dev : BlockDevice) :
    SameContent dev { dev with disk := dev.disk.tick } := ⟨fun _ => rfl, rfl, fun _ => .inl rfl⟩

theorem Relinked.sameContent {dev : BlockDevice} {used : Int} {cache : LRUCacheManager}
    (relinked : Relinked used dev.cache cache) : SameContent dev { dev with cache } := by
  refine ⟨fun b => ?_, rfl, fun _ => .inl rfl⟩
  simp only [BlockDevice.logical, relinked.hashtable]
  cases dev.cache.hashtable b with
  | none => rfl
  | some slot => exact relinked.content slot

/-! ## Shape -/

/-- What holds at every moment; `used` slots have left the free chain. -/
structure Shape (dev : BlockDevice) (used : Int) : Prop where
  nonneg : 0 ≤ used
  nonempty : 0 < dev.cache.size
  links : LinksOk dev.cache used
  free : dev.cache.freeFirst = if used < dev.cache.size then used else -1
  chain : ∀ i, used ≤ i → i < dev.cache.size →
    (dev.cache.buffer i).2.next = if i + 1 < dev.cache.size then i + 1 else -1
  spare : ∀ i, used ≤ i → i < dev.cache.size → (dev.cache.buffer i).2.isDirty = false
  hash : ∀ b slot, dev.cache.hashtable b = some slot →
    0 ≤ slot ∧ slot < used ∧ uint32 (dev.cache.buffer slot).2.id = b ∧ b < dev.disk.count
  dirty : ∀ slot, 0 ≤ slot → slot < used → (dev.cache.buffer slot).2.isDirty = true →
    dev.cache.hashtable (uint32 (dev.cache.buffer slot).2.id) = some slot
  clean : ∀ b slot, dev.cache.hashtable b = some slot →
    (dev.cache.buffer slot).2.isDirty = false → (dev.cache.buffer slot).1 = dev.disk.blocks b

/-- A used slot holds the block that its id names, unless that id is past the end of
the disk: a failed fill leaves such a slot behind. -/
def Owns (dev : BlockDevice) (slot : Int) : Prop :=
  dev.cache.hashtable (uint32 (dev.cache.buffer slot).2.id) = some slot ∨
    dev.disk.count ≤ uint32 (dev.cache.buffer slot).2.id

namespace BlockDevice

/-- Another entry in a slot. -/
def setSlot (dev : BlockDevice) (slot : Int) (e : Block × BlockStatus) : BlockDevice :=
  { dev with cache := { dev.cache with buffer := Function.update dev.cache.buffer slot e } }

/-- Another slot for a key. -/
def setHash (dev : BlockDevice) (b : Nat) (slot : Option Int) : BlockDevice :=
  { dev with cache := { dev.cache with hashtable := Function.update dev.cache.hashtable b slot } }

end BlockDevice

namespace Shape

variable {dev : BlockDevice} {used slot : Int} {e : Block × BlockStatus} {b id : Nat}

/-- Two keys never lead to the same slot. -/
theorem inj (shape : Shape dev used) {b b' : Nat} (here : dev.cache.hashtable b = some slot)
    (there : dev.cache.hashtable b' = some slot) : b = b' := by
  rw [← (shape.hash b slot here).2.2.1, (shape.hash b' slot there).2.2.1]

/-- Relinking used slots keeps everything but the heads of the list. -/
theorem relink (shape : Shape dev used) {cache : LRUCacheManager}
    (links : LinksOk cache used) (relinked : Relinked used dev.cache cache) :
    Shape { dev with cache } used where
  nonneg := shape.nonneg
  nonempty := by
    simp only [relinked.size]
    exact shape.nonempty
  links := links
  free := by
    simp only [relinked.freeFirst, relinked.size]
    exact shape.free
  chain i lo hi := by
    simp only [relinked.size] at hi
    simp only [relinked.size, relinked.above i lo]
    exact shape.chain i lo hi
  spare i lo hi := by
    simp only [relinked.size] at hi
    simp only [relinked.isDirty]
    exact shape.spare i lo hi
  hash b slot h := by
    simp only [relinked.hashtable] at h
    simp only [relinked.id]
    exact shape.hash b slot h
  dirty slot lo hi h := by
    simp only [relinked.isDirty] at h
    simp only [relinked.hashtable, relinked.id]
    exact shape.dirty slot lo hi h
  clean b slot h h' := by
    simp only [relinked.hashtable] at h
    simp only [relinked.isDirty] at h'
    simp only [relinked.content]
    exact shape.clean b slot h h'

/-- Another disk of the same size that has the content of the clean blocks. -/
theorem withDisk (shape : Shape dev used) {disk : RawDisk} (count : disk.count = dev.disk.count)
    (clean : ∀ b slot, dev.cache.hashtable b = some slot →
      (dev.cache.buffer slot).2.isDirty = false → (dev.cache.buffer slot).1 = disk.blocks b) :
    Shape { dev with disk } used where
  nonneg := shape.nonneg
  nonempty := shape.nonempty
  links := shape.links
  free := shape.free
  chain := shape.chain
  spare := shape.spare
  hash b slot h := by
    simp only [count]
    exact shape.hash b slot h
  dirty := shape.dirty
  clean := clean

theorem tick (shape : Shape dev used) : Shape { dev with disk := dev.disk.tick } used :=
  shape.withDisk rfl shape.clean

/-- Another entry in a used slot. -/
theorem setSlot (shape : Shape dev used) (lower : 0 ≤ slot) (upper : slot < used)
    (prev : IsLink used e.2.prev) (next : IsLink used e.2.next)
    (hash : ∀ b, dev.cache.hashtable b = some slot → uint32 e.2.id = b)
    (dirty : e.2.isDirty = true → dev.cache.hashtable (uint32 e.2.id) = some slot)
    (clean : ∀ b, dev.cache.hashtable b = some slot → e.2.isDirty = false → e.1 = dev.disk.blocks b) :
    Shape (dev.setSlot slot e) used where
  nonneg := shape.nonneg
  nonempty := shape.nonempty
  links := by
    refine ⟨shape.links.bound, shape.links.first, shape.links.last, fun i lo hi => ?_⟩
    by_cases same : i = slot
    · subst same
      simpa [BlockDevice.setSlot] using ⟨prev, next⟩
    · simpa [BlockDevice.setSlot, Function.update_of_ne same] using shape.links.links i lo hi
  free := shape.free
  chain i lo hi := by
    simp only [BlockDevice.setSlot, Function.update_of_ne (show i ≠ slot by omega)]
    exact shape.chain i lo hi
  spare i lo hi := by
    simpa [BlockDevice.setSlot, Function.update_of_ne (show i ≠ slot by omega)] using shape.spare i lo hi
  hash b other h := by
    by_cases same : other = slot
    · subst same
      obtain ⟨-, -, -, inRange⟩ := shape.hash b other h
      simpa [BlockDevice.setSlot] using ⟨lower, upper, hash b h, inRange⟩
    · simpa [BlockDevice.setSlot, Function.update_of_ne same] using shape.hash b other h
  dirty other lo hi := by
    by_cases same : other = slot
    · subst same
      simpa [BlockDevice.setSlot] using dirty
    · simpa [BlockDevice.setSlot, Function.update_of_ne same] using shape.dirty other lo hi
  clean b other h := by
    by_cases same : other = slot
    · subst same
      simpa [BlockDevice.setSlot] using clean b h
    · simpa [BlockDevice.setSlot, Function.update_of_ne same] using shape.clean b other h

/-- A key that leads to no dirty slot is taken out of the hash table. -/
theorem forget (shape : Shape dev used)
    (clean : ∀ slot, dev.cache.hashtable id = some slot → (dev.cache.buffer slot).2.isDirty = false) :
    Shape (dev.setHash id none) used := by
  have kept : ∀ {b other}, Function.update dev.cache.hashtable id none b = some other →
      dev.cache.hashtable b = some other := by
    intro b other h
    by_cases same : b = id
    · subst same
      simp at h
    · rwa [Function.update_of_ne same] at h
  refine ⟨shape.nonneg, shape.nonempty, ⟨shape.links.bound, shape.links.first, shape.links.last,
    shape.links.links⟩, shape.free, shape.chain, shape.spare, fun b other h => shape.hash b other (kept h),
    fun other lo hi isDirty => ?_, fun b other h => shape.clean b other (kept h)⟩
  have hashed := shape.dirty other lo hi isDirty
  refine (Function.update_of_ne (fun same => ?_) _ _).trans hashed
  have isClean := clean other (same ▸ hashed)
  rw [show (dev.cache.buffer other).2.isDirty = true from isDirty] at isClean
  cases isClean

/-- A clean slot that no key leads to gets the key of its id. -/
theorem enter (shape : Shape dev used) (lower : 0 ≤ slot) (upper : slot < used)
    (idEq : uint32 (dev.cache.buffer slot).2.id = id) (inRange : id < dev.disk.count)
    (absent : dev.cache.hashtable id = none) (filled : (dev.cache.buffer slot).1 = dev.disk.blocks id) :
    Shape (dev.setHash id (some slot)) used := by
  have kept : ∀ {b other}, Function.update dev.cache.hashtable id (some slot) b = some other →
      b = id ∧ other = slot ∨ dev.cache.hashtable b = some other := by
    intro b other h
    by_cases same : b = id
    · subst same
      simp only [Function.update_self, Option.some.injEq] at h
      exact .inl ⟨rfl, h.symm⟩
    · rw [Function.update_of_ne same] at h
      exact .inr h
  refine ⟨shape.nonneg, shape.nonempty, ⟨shape.links.bound, shape.links.first, shape.links.last,
    shape.links.links⟩, shape.free, shape.chain, shape.spare, fun b other h => ?_,
    fun other lo hi isDirty => ?_, fun b other h => ?_⟩
  · cases kept h with
    | inl new =>
      obtain ⟨rfl, rfl⟩ := new
      exact ⟨lower, upper, idEq, inRange⟩
    | inr old => exact shape.hash b other old
  · have hashed := shape.dirty other lo hi isDirty
    refine (Function.update_of_ne (fun same => ?_) _ _).trans hashed
    have clash : dev.cache.hashtable id = some other := by
      rw [← same]
      exact hashed
    rw [absent] at clash
    cases clash
  · cases kept h with
    | inl new =>
      obtain ⟨rfl, rfl⟩ := new
      exact fun _ => filled
    | inr old => exact shape.clean b other old

/-- The first slot of the free chain leaves it. -/
theorem take (shape : Shape dev used) (room : used < dev.cache.size) :
    Shape (({ dev with cache := { dev.cache with freeFirst := (dev.cache.buffer used).2.next } } :
      BlockDevice).setSlot used ((dev.cache.buffer used).1, .init)) (used + 1) := by
  have nonneg := shape.nonneg
  have nil : IsLink (used + 1) (-1) := ⟨Int.le_refl _, by omega⟩
  have wider : ∀ z, IsLink used z → IsLink (used + 1) z := fun z h => ⟨h.1, by have := h.2; omega⟩
  have ne : ∀ {b other}, dev.cache.hashtable b = some other → other ≠ used := by
    rintro b other h rfl
    exact absurd (shape.hash b _ h).2.1 (Int.lt_irrefl _)
  refine ⟨by omega, shape.nonempty, ⟨by show used + 1 ≤ dev.cache.size; omega,
    wider _ shape.links.first, wider _ shape.links.last, fun i lo hi => ?_⟩, ?_, fun i lo hi => ?_,
    fun i lo hi => ?_, fun b other h => ?_, fun other lo hi h => ?_, fun b other h h' => ?_⟩
  · by_cases same : i = used
    · subst same
      simpa [BlockDevice.setSlot, BlockStatus.init] using nil
    · obtain ⟨prev, next⟩ := shape.links.links i lo (by omega)
      simpa [BlockDevice.setSlot, Function.update_of_ne same] using ⟨wider _ prev, wider _ next⟩
  · exact shape.chain used (Int.le_refl _) room
  · simp only [BlockDevice.setSlot, Function.update_of_ne (show i ≠ used by omega)]
    exact shape.chain i (by omega) hi
  · simpa [BlockDevice.setSlot, Function.update_of_ne (show i ≠ used by omega)] using
      shape.spare i (by omega) hi
  · obtain ⟨lo, hi, rest⟩ := shape.hash b other h
    simpa [BlockDevice.setSlot, Function.update_of_ne (ne h)] using ⟨lo, by omega, rest⟩
  · by_cases same : other = used
    · subst same
      simp [BlockDevice.setSlot] at h
    · simp only [BlockDevice.setSlot, Function.update_of_ne same] at h ⊢
      exact shape.dirty other lo (by omega) h
  · simp only [BlockDevice.setSlot, Function.update_of_ne (ne h)] at h' ⊢
    exact shape.clean b other h h'

end Shape

namespace SameContent

variable {dev : BlockDevice} {slot : Int} {e : Block × BlockStatus} {id : Nat}

theorem setSlot (same : ∀ b, dev.cache.hashtable b = some slot → e.1 = (dev.cache.buffer slot).1) :
    SameContent dev (dev.setSlot slot e) := by
  refine ⟨fun b => ?_, rfl, fun _ => .inl rfl⟩
  simp only [BlockDevice.logical, BlockDevice.setSlot]
  cases h : dev.cache.hashtable b with
  | none => rfl
  | some other =>
    by_cases here : other = slot
    · subst here
      simpa using same b h
    · simp [Function.update_of_ne here]

theorem forget (onDisk : ∀ slot, dev.cache.hashtable id = some slot →
    (dev.cache.buffer slot).1 = dev.disk.blocks id) : SameContent dev (dev.setHash id none) := by
  refine ⟨fun b => ?_, rfl, fun _ => .inl rfl⟩
  simp only [BlockDevice.logical, BlockDevice.setHash]
  by_cases same : b = id
  · subst same
    rw [Function.update_self]
    cases h : dev.cache.hashtable b with
    | none => rfl
    | some other => exact (onDisk other h).symm
  · rw [Function.update_of_ne same]

theorem enter (absent : dev.cache.hashtable id = none)
    (filled : (dev.cache.buffer slot).1 = dev.disk.blocks id) :
    SameContent dev (dev.setHash id (some slot)) := by
  refine ⟨fun b => ?_, rfl, fun _ => .inl rfl⟩
  simp only [BlockDevice.logical, BlockDevice.setHash]
  by_cases same : b = id
  · subst same
    simp [absent, filled]
  · rw [Function.update_of_ne same]

end SameContent

end Sbfs
