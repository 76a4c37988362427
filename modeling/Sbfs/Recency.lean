import Sbfs.CacheLinks
import Sbfs.CacheTransparency
import Mathlib.Data.Finset.Card
import Mathlib.Data.Int.Interval

/-! # Least recently used

The recency list is well formed, and the block that an eviction takes out is the one that was
accessed longest ago, as long as nothing has been evicted from a cache of several slots:
`alloc` forgets the links of its victim before it unlinks it.  So the slot that led to the
victim still does, and the victim becomes both ends of the list. -/

namespace Sbfs

open LinkedList

/-! ## Specification -/

/-- The recency list visits the slots that hold blocks, the last one accessed first.  `log`
names the blocks in the order of their accesses, the last one first. -/
structure Recency (dev : BlockDevice) (log : List Nat) (order : List Int) : Prop where
  linked : WellLinked (-1) dev.cache.links order
  occupied : ∀ slot, slot ∈ order ↔ ∃ id, dev.cache.hashtable id = some slot
  ordered : order.Pairwise fun i j =>
    ∀ x y, dev.cache.hashtable x = some i → dev.cache.hashtable y = some j → log.idxOf x < log.idxOf y

/-- An `upsert` that finds neither its block nor a free slot evicts the block whose last access is the oldest. -/
def EvictsOldest (a : Access) (log : List Nat) (dev dev' : BlockDevice) : Prop :=
  ∀ id blk, a = .upsert id blk → dev.cache.hashtable id = none → dev.cache.freeFirst = -1 →
    ∀ x, dev.cache.hashtable x ≠ none →
      (dev'.cache.hashtable x = none ↔ ∀ y, dev.cache.hashtable y ≠ none → log.idxOf y ≤ log.idxOf x)

/-- An access that succeeds is logged. -/
def Access.logged (a : Access) (ret : Ret) (log : List Nat) : List Nat :=
  if ret = .kSuccess then a.id :: log else log

/-- The list is in order now and after each of the accesses, and every eviction takes the right block. -/
def KeepsRecency : List Access → List Nat → BlockDevice → Prop
  | [], log, dev => ∃ order, Recency dev log order
  | a :: rest, log, dev => (∃ order, Recency dev log order) ∧
    ∃ ret dev', a.run dev = some (ret, dev') ∧ EvictsOldest a log dev dev' ∧ KeepsRecency rest (a.logged ret log) dev'

/-- The blocks that are put into the cache. -/
def upserted (accesses : List Access) : List Nat :=
  accesses.filterMap fun a =>
    match a with
    | .upsert id _ => some id
    | .get _ | .sync _ => none

/-! ## One access -/

section

variable {dev dev' : BlockDevice} {free order : List Int} {log : List Nat} {slot : Int} {id : Nat}

/-- A slot of the list is never next to a free one. -/
theorem Recency.unlinksFree (recency : Recency dev log order) (slots : Slots dev free)
    (mapped : dev.cache.hashtable id = some slot) : dev.cache.UnlinksFree free slot := by
  intro onChain
  have inside := (recency.occupied slot).mpr ⟨id, mapped⟩
  cases recency.linked.prev_mem inside with
  | inl none =>
    have := slots.inside _ onChain
    replace none : (dev.cache.buffer slot).2.prev = -1 := none
    omega
  | inr before =>
    obtain ⟨x, holds⟩ := (recency.occupied _).mp before
    exact absurd onChain (slots.hash x _ holds).2.2.1

/-- The block accessed now comes before all others. -/
theorem ordered_cons (ordered : order.Pairwise fun i j =>
      ∀ x y, dev.cache.hashtable x = some i → dev.cache.hashtable y = some j → log.idxOf x < log.idxOf y)
    (self : ∀ x, dev'.cache.hashtable x = some slot → x = id)
    (same : ∀ i ∈ order, ∀ x, dev'.cache.hashtable x = some i → x ≠ id ∧ dev.cache.hashtable x = some i) :
    (slot :: order).Pairwise fun i j => ∀ x y, dev'.cache.hashtable x = some i → dev'.cache.hashtable y = some j →
      (id :: log).idxOf x < (id :: log).idxOf y := by
  refine List.pairwise_cons.mpr ⟨fun j inside x y here there => ?_, ?_⟩
  · rw [self x here, List.idxOf_cons_self, List.idxOf_cons_ne _ (same j inside y there).1.symm]
    exact Nat.succ_pos _
  · refine ordered.imp_of_mem fun inside inside' before x y here there => ?_
    obtain ⟨ne, here⟩ := same _ inside x here
    obtain ⟨ne', there⟩ := same _ inside' y there
    rw [List.idxOf_cons_ne _ ne.symm, List.idxOf_cons_ne _ ne'.symm]
    exact Nat.succ_lt_succ (before x y here there)

theorem Recency.hit (recency : Recency dev log order) (slots : Slots dev free)
    (mapped : dev.cache.hashtable id = some slot) (accessed : Accessed dev slot dev') :
    ∃ order', Recency dev' (id :: log) order' := by
  have inside := (recency.occupied slot).mpr ⟨id, mapped⟩
  obtain ⟨before, later, rfl⟩ := List.append_of_mem inside
  have fresh := (List.nodup_cons.mp (List.perm_middle.nodup_iff.mp recency.linked.nodup)).1
  refine ⟨slot :: (before ++ later), accessed.links ▸ recency.linked.touch, fun i => ?_, ?_⟩
  · rw [accessed.hashtable, ← recency.occupied]
    exact List.perm_middle.symm.mem_iff
  · refine ordered_cons (recency.ordered.sublist ((List.sublist_cons_self slot later).append_left before)) ?_ ?_
    · exact fun x here => slots.inj (accessed.hashtable ▸ here) mapped
    · intro i member x here
      rw [accessed.hashtable] at here
      refine ⟨fun is => ?_, here⟩
      rw [is, mapped] at here
      exact fresh (Option.some.inj here ▸ member)

theorem Recency.enter (recency : Recency dev log order) (slots : Slots dev free) (room : free.head? = some slot)
    (miss : dev.cache.hashtable id = none) (entered : Entered dev free id slot dev') :
    ∃ order', Recency dev' (id :: log) order' := by
  have onChain := List.mem_of_mem_head? room
  have unmapped : ∀ x, dev.cache.hashtable x ≠ some slot := fun x mapped => (slots.hash x slot mapped).2.2.1 onChain
  have fresh : slot ∉ order := fun inside => by
    obtain ⟨x, mapped⟩ := (recency.occupied slot).mp inside
    exact unmapped x mapped
  have table : ∀ x, dev'.cache.hashtable x = if x = id then some slot else dev.cache.hashtable x := fun x => by
    rw [entered.hashtable, if_neg (unmapped x)]
  have low := slots.inside slot onChain
  refine ⟨slot :: order, entered.links ▸ recency.linked.enter fresh (by omega), fun i => ?_, ?_⟩
  · rw [List.mem_cons, recency.occupied]
    constructor
    · rintro (rfl | ⟨x, mapped⟩)
      · exact ⟨id, by rw [table, if_pos rfl]⟩
      · refine ⟨x, ?_⟩
        rw [table, if_neg fun is => ?_, mapped]
        rw [is, miss] at mapped
        cases mapped
    · rintro ⟨x, mapped⟩
      rw [table] at mapped
      split at mapped
      · exact .inl (Option.some.inj mapped).symm
      · exact .inr ⟨x, mapped⟩
  · refine ordered_cons recency.ordered (fun x here => ?_) fun i inside x here => ?_
    · rw [table] at here
      split at here
      · assumption
      · exact absurd here (unmapped x)
    · rw [table] at here
      split at here
      · exact absurd (Option.some.inj here ▸ inside) fresh
      · exact ⟨by assumption, here⟩

/-! ### A full cache -/

theorem Recency.inside (recency : Recency dev log order) (slots : Slots dev free) {i : Int} (member : i ∈ order) :
    0 ≤ i ∧ i < dev.cache.size := by
  obtain ⟨x, mapped⟩ := (recency.occupied i).mp member
  obtain ⟨lower, upper, -⟩ := slots.hash x i mapped
  exact ⟨lower, upper⟩

theorem Recency.length_le (recency : Recency dev log order) (slots : Slots dev free) :
    order.length ≤ dev.cache.size := by
  have range : order.toFinset ⊆ Finset.Ico 0 (dev.cache.size : Int) := fun i member =>
    Finset.mem_Ico.mpr (recency.inside slots (List.mem_toFinset.mp member))
  have card := Finset.card_le_card range
  rwa [List.toFinset_card_of_nodup recency.linked.nodup, Int.card_Ico, Int.sub_zero, Int.toNat_natCast] at card

theorem Recency.length_full (recency : Recency dev log order) (slots : Slots dev []) :
    order.length = dev.cache.size := by
  have full : Finset.Ico 0 (dev.cache.size : Int) ⊆ order.toFinset := by
    intro i member
    obtain ⟨lower, upper⟩ := Finset.mem_Ico.mp member
    exact List.mem_toFinset.mpr ((recency.occupied i).mpr ⟨_, slots.held i lower upper List.not_mem_nil⟩)
  have card := Finset.card_le_card full
  rw [List.toFinset_card_of_nodup recency.linked.nodup, Int.card_Ico, Int.sub_zero, Int.toNat_natCast] at card
  exact Nat.le_antisymm (recency.length_le slots) card

/-- The only slot of a cache is the first and the last one. -/
theorem Recency.evict_only (recency : Recency dev log order) (slots : Slots dev []) (one : dev.cache.size = 1)
    (miss : dev.cache.hashtable id = none) (entered : Entered dev [] id slot dev') :
    (∃ order', Recency dev' (id :: log) order') ∧
      ∀ x, dev.cache.hashtable x ≠ none → dev'.cache.hashtable x = none ∧ dev.cache.hashtable x = some slot := by
  have last : slot = dev.cache.lruLast := (entered.place.resolve_left fun room => by cases room).2
  have upper := slots.links.last.2
  have lower := slots.links.last.1
  have present := slots.victim rfl
  have zero : slot = 0 := by omega
  -- with one slot the list has one element, before and after
  have only : order = [slot] := by
    have length := recency.length_full slots
    obtain ⟨i, rfl⟩ := List.length_eq_one_iff.mp (length.trans one)
    have range := recency.inside slots (List.mem_singleton_self i)
    rw [show i = slot by omega]
  have all : ∀ x i, dev.cache.hashtable x = some i → i = slot := fun x i mapped => by
    have member := (recency.occupied i).mpr ⟨x, mapped⟩
    rwa [only, List.mem_singleton] at member
  have table : ∀ x, dev'.cache.hashtable x = if x = id then some slot else none := by
    intro x
    rw [entered.hashtable]
    split
    · rfl
    · cases held : dev.cache.hashtable x with
      | none => rw [if_neg (by simp)]
      | some i => rw [all x i held, if_pos rfl]
  refine ⟨⟨[slot], ?_, fun i => ?_, List.pairwise_singleton _ _⟩, fun x cached => ?_⟩
  · rw [entered.links]
    exact (only ▸ recency.linked).enter_only
  · rw [List.mem_singleton]
    constructor
    · rintro rfl
      exact ⟨id, by rw [table, if_pos rfl]⟩
    · rintro ⟨x, mapped⟩
      rw [table] at mapped
      split at mapped
      · exact (Option.some.inj mapped).symm
      · cases mapped
  · obtain ⟨i, mapped⟩ := Option.ne_none_iff_exists'.mp cached
    refine ⟨?_, all x i mapped ▸ mapped⟩
    rw [table, if_neg]
    rintro rfl
    exact cached miss

/-- An eviction from a cache of several slots damages the list. -/
theorem Recency.not_evict (recency : Recency dev log order) (slots : Slots dev []) (several : 2 ≤ dev.cache.size)
    (entered : Entered dev [] id slot dev') (log' : List Nat) (order' : List Int) : ¬ Recency dev' log' order' := by
  intro recency'
  have last : slot = dev.cache.lruLast := (entered.place.resolve_left fun room => by cases room).2
  have linked := recency'.linked
  rw [entered.links, last] at linked
  exact recency.linked.not_enter_last (recency.length_full slots ▸ several) linked

end

/-! ## Runs -/

section

variable {cacheSize : Nat} {dev : BlockDevice} {free order : List Int} {log : List Nat} {accesses : List Access}

/-- In a cache of one slot nothing can go wrong. -/
theorem keepsRecency_one (one : dev.cache.size = 1) (slots : Slots dev free) (recency : Recency dev log order)
    (inRange : ∀ a ∈ accesses, a.InRange dev.disk.count) : KeepsRecency accesses log dev := by
  induction accesses generalizing dev free order log with
  | nil => exact ⟨order, recency⟩
  | cons a rest ih =>
    obtain ⟨ret, dev', ran, outcome, wrote⟩ := slots.run_access a (inRange a List.mem_cons_self)
    have later : ∀ a ∈ rest, a.InRange dev'.disk.count := fun a member =>
      wrote.count ▸ inRange a (List.mem_cons_of_mem _ member)
    refine ⟨⟨order, recency⟩, ret, dev', ran, ?_, ?_⟩
    · rintro id blk rfl miss noRoom x cached
      cases outcome with
      | hit hit _ _ _ =>
        replace hit : dev.cache.hashtable id = _ := hit
        rw [miss] at hit
        cases hit
      | miss _ noUpsert => exact absurd rfl (noUpsert id blk)
      | enter miss _ slots' entered _ =>
        obtain rfl := slots.free_eq_nil.mpr noRoom
        obtain ⟨-, evicted⟩ := recency.evict_only slots one miss entered
        refine iff_of_true (evicted x cached).1 fun y cached' => ?_
        rw [slots.inj (evicted x cached).2 (evicted y cached').2]
    · cases outcome with
      | hit hit slots' accessed _ =>
        obtain ⟨order', recency'⟩ := recency.hit slots hit accessed
        exact ih (accessed.size.trans one) (slots' (recency.unlinksFree slots hit)) recency' later
      | miss _ _ => exact ih one slots recency later
      | @enter slot _ _ miss _ slots' entered _ =>
        have : ∃ order', Recency dev' (a.id :: log) order' := by
          cases entered.place with
          | inl room => exact recency.enter slots room miss entered
          | inr full =>
            obtain ⟨rfl, -⟩ := full
            exact (recency.evict_only slots one miss entered).1
        obtain ⟨order', recency'⟩ := this
        exact ih (entered.size.trans one) slots' recency' later

/-- As long as nothing has been evicted, the blocks accessed are those in the list. -/
theorem Recency.card_log (recency : Recency dev log order) (slots : Slots dev free)
    (cached : ∀ id, id ∈ log ↔ dev.cache.hashtable id ≠ none) : log.toFinset.card = order.length := by
  have held : ∀ i ∈ order, dev.cache.hashtable (uint32 (dev.cache.buffer i).2.id) = some i := by
    intro i inside
    obtain ⟨x, mapped⟩ := (recency.occupied i).mp inside
    rwa [(slots.hash x i mapped).2.2.2.1]
  have nodup : (order.map fun i => uint32 (dev.cache.buffer i).2.id).Nodup := by
    refine recency.linked.nodup.map_on fun i inside j inside' same => ?_
    have there := held j inside'
    rw [← same, held i inside] at there
    exact Option.some.inj there
  have all : log.toFinset = (order.map fun i => uint32 (dev.cache.buffer i).2.id).toFinset := by
    ext x
    rw [List.mem_toFinset, List.mem_toFinset, cached, List.mem_map]
    constructor
    · intro cached
      obtain ⟨i, mapped⟩ := Option.ne_none_iff_exists'.mp cached
      exact ⟨i, (recency.occupied i).mpr ⟨x, mapped⟩, (slots.hash x i mapped).2.2.2.1⟩
    · rintro ⟨i, inside, rfl⟩
      rw [held i inside]
      exact Option.some_ne_none i
  rw [all, List.toFinset_card_of_nodup nodup, List.length_map]

/-- In a cache of several slots nothing goes wrong until there are more blocks than slots. -/
theorem keepsRecency_several (several : 2 ≤ dev.cache.size) (slots : Slots dev free)
    (recency : Recency dev log order) (cached : ∀ id, id ∈ log ↔ dev.cache.hashtable id ≠ none)
    (inRange : ∀ a ∈ accesses, a.InRange dev.disk.count) :
    KeepsRecency accesses log dev ↔ (log ++ upserted accesses).toFinset.card ≤ dev.cache.size := by
  induction accesses generalizing dev free order log with
  | nil =>
    refine iff_of_true ⟨order, recency⟩ ?_
    rw [upserted, List.filterMap_nil, List.append_nil, recency.card_log slots cached]
    exact recency.length_le slots
  | cons a rest ih =>
    obtain ⟨ret, dev', ran, outcome, wrote⟩ := slots.run_access a (inRange a List.mem_cons_self)
    have later : ∀ a ∈ rest, a.InRange dev'.disk.count := fun a member =>
      wrote.count ▸ inRange a (List.mem_cons_of_mem _ member)
    -- the first access says nothing unless it evicts
    have peel : EvictsOldest a log dev dev' → (KeepsRecency (a :: rest) log dev ↔
        KeepsRecency rest (a.logged ret log) dev') := by
      intro evicts
      constructor
      · rintro ⟨-, ret', dev'', ran', -, keeps⟩
        rw [ran] at ran'
        cases ran'
        exact keeps
      · exact fun keeps => ⟨⟨order, recency⟩, ret, dev', ran, evicts, keeps⟩
    cases outcome with
    | @hit slot _ hit slots' accessed _ =>
      obtain ⟨order', recency'⟩ := recency.hit slots hit accessed
      have here : a.id ∈ log := (cached a.id).mpr (by rw [hit]; exact Option.some_ne_none slot)
      have still : ∀ id, id ∈ a.id :: log ↔ dev'.cache.hashtable id ≠ none := fun id => by
        rw [accessed.hashtable, ← cached, List.mem_cons, or_iff_right_of_imp (fun is => is ▸ here)]
      rw [peel ?_]
      swap
      · rintro id blk rfl miss
        replace hit : dev.cache.hashtable id = _ := hit
        rw [miss] at hit
        cases hit
      have rest' := ih (accessed.size ▸ several) (slots' (recency.unlinksFree slots hit)) recency' still later
      rw [Access.logged, if_pos rfl, rest', accessed.size]
      suffices (a.id :: log ++ upserted rest).toFinset = (log ++ upserted (a :: rest)).toFinset by rw [this]
      ext x
      cases a <;> simp only [List.mem_toFinset, List.mem_append, List.mem_cons, upserted, List.filterMap_cons,
        Access.id] at here ⊢ <;> grind
    | miss miss noUpsert =>
      rw [peel fun id blk is => absurd is (noUpsert id blk)]
      have rest' := ih several slots recency cached later
      rw [Access.logged, if_neg (by decide), rest']
      cases a with
      | upsert id blk => exact absurd rfl (noUpsert id blk)
      | get id => rfl
      | sync id => rfl
    | @enter slot _ blk miss is slots' entered _ =>
      have fresh : a.id ∉ log := fun inside => (cached a.id).mp inside miss
      have ids : upserted (a :: rest) = a.id :: upserted rest := by
        rw [is]
        rfl
      cases entered.place with
      | inl room =>
        obtain ⟨order', recency'⟩ := recency.enter slots room miss entered
        have unmapped : ∀ x, dev.cache.hashtable x ≠ some slot := fun x mapped =>
          (slots.hash x slot mapped).2.2.1 (List.mem_of_mem_head? room)
        have still : ∀ id, id ∈ a.id :: log ↔ dev'.cache.hashtable id ≠ none := fun id => by
          rw [entered.hashtable, if_neg (unmapped id), List.mem_cons, cached]
          by_cases new : id = a.id
          · rw [if_pos new]
            exact iff_of_true (.inl new) (Option.some_ne_none slot)
          · rw [if_neg new, or_iff_right new]
        rw [peel ?_]
        swap
        · intro id blk _ _ noRoom
          rw [slots.free_eq_nil.mpr noRoom] at room
          cases room
        have rest' := ih (entered.size ▸ several) slots' recency' still later
        rw [Access.logged, if_pos rfl, rest', entered.size, ids]
        suffices (a.id :: log ++ upserted rest).toFinset = (log ++ a.id :: upserted rest).toFinset by rw [this]
        ext x
        simp only [List.mem_toFinset, List.mem_append, List.mem_cons]
        tauto
      | inr full =>
        obtain ⟨rfl, -⟩ := full
        refine iff_of_false ?_ ?_
        · rintro ⟨-, ret', dev'', ran', -, keeps⟩
          rw [ran] at ran'
          cases ran'
          have now : ∃ order', Recency dev' (a.id :: log) order' := by
            cases rest with
            | nil => exact keeps
            | cons a' rest => exact keeps.1
          obtain ⟨order', recency'⟩ := now
          exact recency.not_evict slots several entered _ _ recency'
        · have more : insert a.id log.toFinset ⊆ (log ++ upserted (a :: rest)).toFinset := by
            intro x member
            rw [Finset.mem_insert, List.mem_toFinset] at member
            rw [ids, List.mem_toFinset, List.mem_append, List.mem_cons]
            tauto
          have card := Finset.card_le_card more
          rw [Finset.card_insert_of_notMem fun inside => fresh (List.mem_toFinset.mp inside),
            recency.card_log slots cached, recency.length_full slots] at card
          omega

theorem Recency.init {disk : RawDisk} : Recency (.new cacheSize disk) [] [] where
  linked := ⟨List.nodup_nil, rfl, rfl⟩
  occupied := fun slot => iff_of_false List.not_mem_nil fun mapped => by
    obtain ⟨id, mapped⟩ := mapped
    cases mapped
  ordered := .nil

end

/-- The recency list stays in order, and every eviction takes the block accessed longest ago, exactly
if the cache has one slot, or at most as many blocks as it has slots are ever put into it. -/
theorem keepsRecency_iff {cacheSize : Nat} (capacity : kBlockSize ≤ cacheSize) {disk : RawDisk}
    (steady : ∀ n, disk.faults n = false) (accesses : List Access) (inRange : ∀ a ∈ accesses, a.InRange disk.count) :
    KeepsRecency accesses [] (.new cacheSize disk) ↔ cacheSize / kBlockSize = 1 ∨
      (upserted accesses).toFinset.card ≤ cacheSize / kBlockSize := by
  have slots := Slots.init capacity steady
  have some : 0 < cacheSize / kBlockSize := Nat.div_pos capacity (by decide)
  by_cases one : cacheSize / kBlockSize = 1
  · exact iff_of_true (keepsRecency_one one slots .init inRange) (.inl one)
  · rw [or_iff_right one]
    exact keepsRecency_several (show 2 ≤ cacheSize / kBlockSize by omega) slots .init
      (fun id => iff_of_false List.not_mem_nil fun cached => cached rfl) inRange

/-- Two slots, two blocks: nothing is evicted. -/
theorem keepsRecency_iff_twoBlocks : KeepsRecency
    [.upsert 5 Bytes.zero, .upsert 6 Bytes.zero, .get 5, .sync 6, .get 7, .upsert 5 Bytes.zero] []
    (.new 8192 (blankDisk 8)) :=
  (keepsRecency_iff (by decide) (fun _ => rfl) _ (by decide)).mpr (.inr (by decide))

/-- Two slots, three blocks: the third one damages the list. -/
theorem recency_lost : ¬ ∀ (cacheSize : Nat) (disk : RawDisk), kBlockSize ≤ cacheSize →
    (∀ n, disk.faults n = false) → ∀ accesses : List Access, (∀ a ∈ accesses, a.InRange disk.count) →
      KeepsRecency accesses [] (.new cacheSize disk) := by
  intro always
  have keeps := always 8192 (blankDisk 8) (by decide) (fun _ => rfl)
    [.upsert 5 Bytes.zero, .upsert 6 Bytes.zero, .upsert 7 Bytes.zero] (by decide)
  rw [keepsRecency_several (by decide) (Slots.init (by decide) fun _ => rfl) .init
    (fun id => iff_of_false List.not_mem_nil fun cached => cached rfl) (by decide)] at keeps
  exact absurd keeps (by decide)

end Sbfs
