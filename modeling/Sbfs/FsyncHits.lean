import Sbfs.CacheOrder
import Sbfs.Fsync
import Mathlib.Data.Set.Card

/-! # What `fsync` finds in the cache

`Inode::sync` reads the block of the inode and the index blocks, and syncs the data blocks.  A sync of a block that is
not in the cache fails, so that the call reports an error for a file of which a block has been evicted, or has never
been loaded. -/

namespace Sbfs

open Slot LinkedList

/-! ## Visits -/

namespace Machine

/-- A request for a block. -/
inductive Visit where
  | read (id : Nat)
  | sync (id : Nat)

def Visit.id : Visit → Nat
  | read id | sync id => id

def Visit.run : Visit → Machine → Bool × Machine
  | read id, s => ((handler.read id s).1.isSome, (handler.read id s).2)
  | sync id, s => handler.sync id s

/-- The requests one after the other, up to the first that fails. -/
def visits : List Visit → Machine → Bool × Machine
  | [], s => (true, s)
  | v :: rest, s => if (v.run s).1 then visits rest (v.run s).2 else (false, (v.run s).2)

/-- The cache is in order, and block ids are `uint32_t`. -/
structure Ordered (s : Machine) (free : List Int) : Prop where
  order : InOrder s.dev free
  small : s.dev.disk.count < 4294967296

/-- What a request finds. -/
inductive Visited (s : Machine) (free : List Int) : Visit → Bool → Machine → Prop where
  | found {v : Visit} {slot : Int} {s' : Machine} (hit : s.dev.cache.hashtable v.id = some slot)
      (found : Found s.dev free slot s'.dev) : Visited s free v true s'
  | loaded {id : Nat} {slot : Int} {s' : Machine} (miss : s.dev.cache.hashtable id = none)
      (loaded : Loaded s.dev free id slot s'.dev) : Visited s free (.read id) true s'
  | missed {id : Nat} (miss : s.dev.cache.hashtable id = none) : Visited s free (.sync id) false s

section

variable {s s' : Machine} {free : List Int} {v : Visit} {l l' : List Visit} {ok : Bool} {id b : Nat} {d : DiskInode}

theorem Visited.ordered (order : s.Ordered free) (visited : Visited s free v ok s') :
    (∃ free', s'.Ordered free') ∧ s'.logical = s.logical ∧ s'.dev.disk.count = s.dev.disk.count := by
  cases visited with
  | found _ found =>
    exact ⟨⟨free, found.order, found.same.count ▸ order.small⟩, funext found.same.logical, found.same.count⟩
  | loaded _ loaded =>
    exact ⟨⟨free.tail, loaded.order, loaded.same.count ▸ order.small⟩, funext loaded.same.logical, loaded.same.count⟩
  | missed => exact ⟨⟨free, order⟩, rfl, rfl⟩

theorem Ordered.run_read (order : s.Ordered free) (inRange : id < s.dev.disk.count) :
    ∃ s', handler.read id s = (some (s.logical id), s') ∧ Visited s free (.read id) true s' := by
  obtain ⟨dev', read, outcome⟩ := order.order.run_read (inRange.trans order.small) inRange
  refine ⟨{ s with dev := dev' }, ?_, ?_⟩
  · simp only [handler, serve, read]
    rfl
  · obtain ⟨slot, hit, found⟩ | ⟨miss, slot, loaded⟩ := outcome
    · exact .found hit found
    · exact .loaded miss loaded

theorem Ordered.run_sync (order : s.Ordered free) (id : Nat) :
    ∃ ok s', handler.sync id s = (ok, s') ∧ Visited s free (.sync id) ok s' := by
  obtain ⟨slot, dev', hit, sync, found⟩ | ⟨miss, sync⟩ := order.order.run_sync id
  · refine ⟨true, { s with dev := dev' }, ?_, .found hit found⟩
    simp only [handler, serve, sync, Option.map_some, decide_true]
  · refine ⟨false, s, ?_, .missed miss⟩
    simp only [handler, serve, sync, Option.map_some, reduceCtorEq, decide_false]

theorem Ordered.run_visit (order : s.Ordered free) (inRange : v.id < s.dev.disk.count) :
    ∃ ok s', v.run s = (ok, s') ∧ Visited s free v ok s' := by
  cases v with
  | read id =>
    replace inRange : id < s.dev.disk.count := inRange
    obtain ⟨s', read, visited⟩ := order.run_read inRange
    exact ⟨true, s', by rw [Visit.run, read]; rfl, visited⟩
  | sync id => exact order.run_sync id

theorem visits_append (l l' : List Visit) (s : Machine) :
    visits (l ++ l') s = if (visits l s).1 then visits l' (visits l s).2 else (false, (visits l s).2) := by
  induction l generalizing s with
  | nil => rfl
  | cons v l ih =>
    simp only [List.cons_append, visits]
    split
    · exact ih _
    · rfl

/-! ### The requests of `Inode::sync` -/

/-- The index blocks on the way to inner block `k`. -/
def path (k : Nat) : List Slot :=
  if k < 23 then [] else if k < 23 + 1024 then [ind1] else [ind2, second ((k - 1047) / 1024)]

/-- The requests for inner block `k`. -/
def blockVisits (d : DiskInode) (D : Nat → Block) (k : Nat) : List Visit :=
  (path k).map (fun x => .read (d.slotId D x)) ++ [.sync (d.slotId D (data k))]

/-- The requests of `sync_data`. -/
def dataVisits (d : DiskInode) (D : Nat → Block) (i n : Nat) : List Visit := (List.range' i n).flatMap (blockVisits d D)

/-- The requests of `Inode::sync` behind that for the block of the inode. -/
def laterVisits (D : Nat → Block) (pos : Position) (metadata : Bool) : List Visit :=
  dataVisits (inodeAt D pos) D 0 (dataBlocks (inodeAt D pos).size.toNat) ++ if metadata then [.sync pos.blockId] else []

theorem interp_blockId_visits (order : s.Ordered free) {k : Nat} (small : k < 1048576)
    (inRange : ∀ x ∈ path k, d.slotId s.logical x < s.dev.disk.count) :
    ∃ s', visits ((path k).map fun x => .read (d.slotId s.logical x)) s = (true, s') ∧
      (d.blockId k).interp handler s = (d.slotId s.logical (data k), s') ∧
      (∃ free', s'.Ordered free') ∧ s'.logical = s.logical ∧ s'.dev.disk.count = s.dev.disk.count := by
  rw [DiskInode.blockId, if_neg (by omega)]
  by_cases direct : k < 23
  · rw [if_pos direct, path, if_pos direct, DiskInode.slotId_direct direct]
    exact ⟨s, rfl, rfl, ⟨free, order⟩, rfl, rfl⟩
  rw [if_neg direct]
  rw [path, if_neg direct] at inRange ⊢
  by_cases level : k < 23 + 1024
  · rw [if_pos level] at inRange ⊢
    rw [if_pos level]
    -- one index block is read
    obtain ⟨s₁, read, visited⟩ := order.run_read (inRange ind1 (by simp))
    obtain ⟨order₁, logical₁, count₁⟩ := visited.ordered order
    refine ⟨s₁, ?_, ?_, order₁, logical₁, count₁⟩
    · simp only [List.map_cons, List.map_nil, visits, Visit.run, read, Option.isSome_some, if_true]
    · replace read : (DevProg.readBlk d.indirect1.toNat).interp handler s = _ := read
      simp only [DevProg.interp_bind, read, DevProg.interp_pure, DiskInode.slotId, direct, if_false,
        if_pos (show k < 1047 by omega)]
  · rw [if_neg level] at inRange ⊢
    rw [if_neg level]
    -- two index blocks are read, the second with the cache as the first has left it
    obtain ⟨s₁, read₁, visited₁⟩ := order.run_read (inRange ind2 (by simp))
    obtain ⟨⟨free₁, order₁⟩, logical₁, count₁⟩ := visited₁.ordered order
    obtain ⟨s₂, read₂, visited₂⟩ := order₁.run_read (count₁ ▸ inRange (second ((k - 1047) / 1024)) (by simp))
    obtain ⟨order₂, logical₂, count₂⟩ := visited₂.ordered order₁
    refine ⟨s₂, ?_, ?_, order₂, logical₂.trans logical₁, count₂.trans count₁⟩
    · simp only [List.map_cons, List.map_nil, visits, Visit.run, read₁, read₂, Option.isSome_some, if_true]
    · replace read₁ : (DevProg.readBlk d.indirect2.toNat).interp handler s = _ := read₁
      replace read₂ : (DevProg.readBlk (entry (s.logical d.indirect2.toNat) ((k - 1047) / 1024))).interp handler s₁ =
        _ := read₂
      simp only [DevProg.interp_bind, read₁, read₂, DevProg.interp_pure, DiskInode.slotId, direct, if_false,
        if_neg (show ¬ k < 1047 by omega), logical₁]

theorem interp_syncBlocks_visits (order : s.Ordered free) {n i : Nat} (bound : i + n ≤ 1048576)
    (inRange : ∀ k, i ≤ k → k < i + n → ∀ x ∈ path k, d.slotId s.logical x < s.dev.disk.count) :
    ∃ ok s', visits (dataVisits d s.logical i n) s = (ok, s') ∧
      (d.syncBlocks n i).interp handler s = (if ok then .kSuccess else .kFail, s') ∧
      (∃ free', s'.Ordered free') ∧ s'.logical = s.logical := by
  induction n generalizing s i free with
  | zero => exact ⟨true, s, rfl, rfl, ⟨free, order⟩, rfl⟩
  | succ n ih =>
    obtain ⟨s₁, reads, eq₁, ⟨free₁, order₁⟩, logical₁, count₁⟩ :=
      interp_blockId_visits order (by omega) (inRange i (Nat.le_refl i) (by omega))
    obtain ⟨ok, s₂, sync, visited⟩ := order₁.run_sync (d.slotId s.logical (data i))
    obtain ⟨⟨free₂, order₂⟩, logical₂, count₂⟩ := visited.ordered order₁
    have eq₂ : (DevProg.syncBlk (d.slotId s.logical (data i))).interp handler s₁ = (ok, s₂) := sync
    -- the requests for block `i`: its path, and then its sync
    have head : visits (blockVisits d s.logical i) s = (ok, s₂) := by
      rw [blockVisits, visits_append, reads]
      simp only [visits, Visit.run, sync, if_true]
      cases ok <;> rfl
    rw [dataVisits, List.range'_succ, List.flatMap_cons, visits_append, head]
    cases ok with
    -- the loop ends at the first block that is not in the cache
    | false =>
      refine ⟨false, s₂, rfl, ?_, ⟨free₂, order₂⟩, logical₂.trans logical₁⟩
      simp only [DiskInode.syncBlocks, DevProg.interp_bind, eq₁, eq₂, Bool.false_eq_true, if_false,
        DevProg.interp_pure]
    | true =>
      have same := logical₂.trans logical₁
      obtain ⟨ok, s₃, rest, eq₃, order₃, logical₃⟩ := ih order₂ (i := i + 1) (by omega) (by
        rw [same, count₂, count₁]
        exact fun k lower upper => inRange k (by omega) (by omega))
      rw [same] at rest
      refine ⟨ok, s₃, rest, ?_, order₃, logical₃.trans same⟩
      simp only [DiskInode.syncBlocks, DevProg.interp_bind, eq₁, eq₂, if_true, eq₃]

/-- `Inode::sync` is one request after the other. -/
theorem interp_sync_visits (order : s.Ordered free) {pos : Position} (here : pos.blockId < s.dev.disk.count)
    (inRange : ∀ k, k < dataBlocks (inodeAt s.logical pos).size.toNat → ∀ x ∈ path k,
      (inodeAt s.logical pos).slotId s.logical x < s.dev.disk.count) (metadata : Bool) :
    ((Inode.sync pos metadata).interp handler s).1 = .kSuccess ↔
      (visits (.read pos.blockId :: laterVisits s.logical pos metadata) s).1 = true := by
  obtain ⟨s₁, read, visited⟩ := order.run_read here
  obtain ⟨⟨free₁, order₁⟩, logical₁, count₁⟩ := visited.ordered order
  rw [← logical₁, ← count₁] at inRange
  generalize hd : inodeAt s.logical pos = d at *
  have bound := dataBlocks_le d.size.toNat_lt
  obtain ⟨ok, s₂, blocks, eq₂, ⟨free₂, order₂⟩, -⟩ := interp_syncBlocks_visits order₁ (d := d)
    (n := dataBlocks d.size.toNat) (i := 0) (by omega) fun k _ inside => by
      rw [logical₁, hd] at inRange
      rw [logical₁]
      exact inRange k (by omega)
  -- the first request is the block of the inode
  have inode : (readInode pos).interp handler s = (some d, s₁) := by
    replace read : (DevProg.readBlk pos.blockId).interp handler s = _ := read
    simp only [readInode, DevProg.interp_bind, read, DevProg.interp_pure, ← hd, inodeAt]
  have first : visits (.read pos.blockId :: laterVisits s.logical pos metadata) s =
      visits (laterVisits s.logical pos metadata) s₁ := by
    rw [visits, Visit.run, read]
    rfl
  rw [first, laterVisits, hd, visits_append, ← logical₁, blocks]
  cases ok with
  | false =>
    refine iff_of_false ?_ (by simp)
    simp only [Inode.sync, DiskInode.syncData, DevProg.interp_bind, inode, eq₂, Bool.false_eq_true, if_false,
      DevProg.interp_pure, reduceCtorEq, not_false_eq_true]
  | true =>
    cases metadata with
    | false =>
      refine iff_of_true ?_ rfl
      simp only [Inode.sync, DiskInode.syncData, DevProg.interp_bind, inode, eq₂, Bool.false_eq_true, if_false,
        if_true, DevProg.interp_pure]
    | true =>
      obtain ⟨ok, s₃, sync, -⟩ := order₂.run_sync pos.blockId
      have eq₃ : (DevProg.syncBlk pos.blockId).interp handler s₂ = (ok, s₃) := sync
      simp only [Inode.sync, DiskInode.syncData, DevProg.interp_bind, inode, eq₂, Bool.false_eq_true, if_false,
        if_true, DevProg.interp_pure, eq₃, visits, Visit.run, sync]
      cases ok <;> simp

/-! ### What the requests find -/

theorem Visited.cached (visited : Visited s free v true s') : s'.Cached v.id := by
  cases visited with
  | found hit found => exact ne_of_eq_of_ne ((congrFun found.hashtable _).trans hit) (Option.some_ne_none _)
  | loaded _ loaded => exact ne_of_eq_of_ne ((loaded.hashtable _).trans (if_pos rfl)) (Option.some_ne_none _)

/-- Only a read brings a block into the cache. -/
theorem Visited.uncached (visited : Visited s free v ok s') (other : v ≠ .read b) (missing : ¬ s.Cached b) :
    ¬ s'.Cached b := by
  rw [Cached, not_not] at missing ⊢
  cases visited with
  | found _ found => rw [found.hashtable, missing]
  | loaded _ loaded =>
    rw [loaded.hashtable, if_neg fun same => other (congrArg Visit.read same.symm), missing]
    exact if_neg fun none => by cases none
  | missed => exact missing

theorem visits_uncached (order : s.Ordered free) (inRange : ∀ v ∈ l, v.id < s.dev.disk.count) (unread : .read b ∉ l)
    (missing : ¬ s.Cached b) (ran : visits l s = (ok, s')) : ¬ s'.Cached b := by
  induction l generalizing s free with
  | nil =>
    cases ran
    exact missing
  | cons v l ih =>
    obtain ⟨here, later⟩ := List.forall_mem_cons.mp inRange
    obtain ⟨ok₁, s₁, run, visited⟩ := order.run_visit here
    obtain ⟨⟨free₁, order₁⟩, -, count⟩ := visited.ordered order
    have missing₁ := visited.uncached (fun same => unread (same ▸ List.mem_cons_self)) missing
    rw [visits, run] at ran
    cases ok₁ with
    | false =>
      cases ran
      exact missing₁
    | true => exact ih order₁ (count ▸ later) (fun read => unread (List.mem_cons_of_mem _ read)) missing₁ ran

/-- A block that is synced and not read has been in the cache before. -/
theorem cached_of_visits (order : s.Ordered free) (inRange : ∀ v ∈ l, v.id < s.dev.disk.count) (unread : .read b ∉ l)
    (synced : .sync b ∈ l) (success : (visits l s).1 = true) : s.Cached b := by
  induction l generalizing s free with
  | nil => cases synced
  | cons v l ih =>
    obtain ⟨here, later⟩ := List.forall_mem_cons.mp inRange
    obtain ⟨ok₁, s₁, run, visited⟩ := order.run_visit here
    obtain ⟨⟨free₁, order₁⟩, -, count⟩ := visited.ordered order
    rw [visits, run] at success
    cases ok₁ with
    | false => cases success
    | true =>
      by_contra missing
      have missing₁ := visited.uncached (fun same => unread (same ▸ List.mem_cons_self)) missing
      obtain rfl | synced := List.mem_cons.mp synced
      · cases visited with
        | found hit => exact missing (ne_of_eq_of_ne hit (Option.some_ne_none _))
      · exact missing₁ (ih order₁ (count ▸ later) (fun read => unread (List.mem_cons_of_mem _ read)) synced success)

/-- The blocks that are read and not in the cache find free slots, or all but one of them do and the last slot of the
LRU list holds a block outside of `N`. -/
def Roomy (N : Nat → Prop) (l : List Visit) (s : Machine) (free : List Int) : Prop :=
  {b | .read b ∈ l ∧ ¬ s.Cached b}.encard ≤ free.length ∨ {b | .read b ∈ l ∧ ¬ s.Cached b}.encard ≤ free.length + 1 ∧
    ∃ b, s.dev.cache.hashtable b = some s.dev.cache.lruLast ∧ ¬ N b

/-- A load leaves one block less to be loaded. -/
theorem missing_load (kept : ∀ b, .read b ∈ l → s.Cached b → s'.Cached b) (now : s'.Cached id) (miss : ¬ s.Cached id)
    {n : Nat} (room : {b | .read b ∈ .read id :: l ∧ ¬ s.Cached b}.encard ≤ n + 1) :
    {b | .read b ∈ l ∧ ¬ s'.Cached b}.encard ≤ n := by
  have asked : id ∈ {b | Visit.read b ∈ Visit.read id :: l ∧ ¬ s.Cached b} := ⟨List.mem_cons_self, miss⟩
  have fewer : {b | Visit.read b ∈ l ∧ ¬ s'.Cached b} ⊆
      {b | Visit.read b ∈ Visit.read id :: l ∧ ¬ s.Cached b} \ {id} := by
    rintro b ⟨read, missing⟩
    refine ⟨⟨List.mem_cons_of_mem _ read, fun cached => missing (kept b read cached)⟩, fun same => missing ?_⟩
    rw [Set.mem_singleton_iff.mp same]
    exact now
  refine (Set.encard_le_encard fewer).trans ?_
  rw [← Set.encard_sdiff_singleton_add_one asked] at room
  exact (ENat.add_le_add_iff_right ENat.one_ne_top).mp room

/-- Where there is room, none of the blocks in `N` leaves the cache. -/
theorem Visited.roomy {N : Nat → Prop} (order : s.Ordered free) (visited : Visited s free v ok s') (here : N v.id)
    (later : ∀ b, .read b ∈ l → N b) (room : Roomy N (v :: l) s free) :
    ∃ free', s'.Ordered free' ∧ Roomy N l s' free' ∧ ∀ b, N b → s.Cached b → s'.Cached b := by
  have slots := order.order.slots
  have fewer : {b | .read b ∈ l ∧ ¬ s.Cached b} ⊆ {b | .read b ∈ v :: l ∧ ¬ s.Cached b} :=
    fun b missing => ⟨List.mem_cons_of_mem _ missing.1, missing.2⟩
  have less := Set.encard_le_encard fewer
  have now : ok = true → s'.Cached v.id := fun success => (success ▸ visited).cached
  cases visited with
  | @found _ slot _ hit found =>
    -- a hit moves its slot to the front, and the last one holds a block outside of `N`
    have same : ∀ b, s'.Cached b ↔ s.Cached b := fun b => by rw [Cached, found.hashtable, Cached]
    refine ⟨free, ⟨found.order, found.same.count ▸ order.small⟩, ?_, fun b _ => (same b).mpr⟩
    simp only [Roomy, same]
    refine room.imp less.trans fun room => ⟨less.trans room.1, ?_⟩
    obtain ⟨-, b, last, other⟩ := room
    have apart : slot ≠ s.dev.cache.lruLast := fun is => other (slots.inj last (is ▸ hit) ▸ here)
    exact ⟨b, by rw [found.hashtable, found.last apart, last], other⟩
  | missed => exact ⟨free, order, room.imp less.trans (And.imp_left less.trans), fun _ _ => id⟩
  | @loaded id slot _ miss loaded =>
    have ordered : s'.Ordered free.tail := ⟨loaded.order, loaded.same.count ▸ order.small⟩
    by_cases full : free = []
    · subst full
      obtain rfl := (loaded.place.resolve_left fun room => by cases room).2
      obtain none | ⟨one, b, last, other⟩ := room
      · rw [List.length_nil, Nat.cast_zero, nonpos_iff_eq_zero, Set.encard_eq_zero] at none
        have asked : id ∈ {b | Visit.read b ∈ Visit.read id :: l ∧ ¬ s.Cached b} :=
          ⟨List.mem_cons_self, not_not.mpr miss⟩
        -- nothing was to be loaded
        rw [none] at asked
        exact asked.elim
      · -- the block that is evicted is not in `N`, and no other one is missing
        have kept : ∀ c, N c → s.Cached c → s'.Cached c := by
          intro c needed cached
          rw [Cached, loaded.hashtable]
          split
          · exact Option.some_ne_none _
          · rwa [if_neg fun held => other (slots.inj last held ▸ needed)]
        refine ⟨[], ordered, .inl ?_, kept⟩
        exact missing_load (fun c read => kept c (later c read)) (now rfl) (not_not.mpr miss) one
    · -- a free slot is taken, and all blocks stay where they are
      have table := loaded.hashtable_free order.order full
      have kept : ∀ b, s.Cached b → s'.Cached b := by
        intro b cached
        rw [Cached, table]
        split
        · exact Option.some_ne_none slot
        · exact cached
      have length : free.length = free.tail.length + 1 := by
        rw [List.length_tail]
        have := List.length_pos_iff.mpr full
        omega
      refine ⟨free.tail, ordered, ?_, fun b _ => kept b⟩
      rw [Roomy, length] at room
      refine room.imp (missing_load (fun b _ => kept b) (now rfl) (not_not.mpr miss)) fun room => ⟨?_, ?_⟩
      · exact missing_load (fun b _ => kept b) (now rfl) (not_not.mpr miss) room.1
      · obtain ⟨-, b, last, other⟩ := room
        have some := (slots.hash b _ last).1
        refine ⟨b, ?_, other⟩
        rw [table, loaded.kept full (by omega), if_neg, last]
        rintro rfl
        cases miss.symm.trans last

theorem visits_of_roomy {N : Nat → Prop} (order : s.Ordered free) (inRange : ∀ v ∈ l, v.id < s.dev.disk.count)
    (asked : ∀ v ∈ l, N v.id) (room : Roomy N l s free) (cached : ∀ b, .sync b ∈ l → s.Cached b) :
    (visits l s).1 = true := by
  induction l generalizing s free with
  | nil => rfl
  | cons v l ih =>
    obtain ⟨here, later⟩ := List.forall_mem_cons.mp inRange
    obtain ⟨needed, asked⟩ := List.forall_mem_cons.mp asked
    obtain ⟨ok₁, s₁, run, visited⟩ := order.run_visit here
    obtain ⟨-, -, count⟩ := visited.ordered order
    obtain ⟨free₁, order₁, room₁, kept⟩ := visited.roomy order needed (fun b => asked (.read b)) room
    obtain rfl : ok₁ = true := by
      cases visited with
      | found => rfl
      | loaded => rfl
      | missed miss => exact absurd miss (cached _ List.mem_cons_self)
    rw [visits, run]
    refine ih order₁ (count ▸ later) asked room₁ fun b synced => ?_
    exact kept b (asked (.sync b) synced) (cached b (List.mem_cons_of_mem _ synced))

/-- In a full cache a load takes the last slot of the list, and leaves the others. -/
theorem Visited.last (visited : Visited s [] v true s') (order : s.Ordered []) {p : Nat}
    (last : s.dev.cache.hashtable p = some s.dev.cache.lruLast) (other : v.id ≠ p) : ¬ s'.Cached p ∨
      s.Cached v.id ∧ s'.Ordered [] ∧ s'.dev.cache.hashtable = s.dev.cache.hashtable ∧
        s'.dev.cache.lruLast = s.dev.cache.lruLast := by
  have slots := order.order.slots
  cases visited with
  | @found _ slot _ hit found =>
    refine .inr ⟨ne_of_eq_of_ne hit (Option.some_ne_none slot), ⟨found.order, found.same.count ▸ order.small⟩,
      found.hashtable, found.last fun same => other ?_⟩
    exact slots.inj hit (same ▸ last)
  | @loaded id slot _ miss loaded =>
    obtain rfl := (loaded.place.resolve_left fun room => by cases room).2
    replace other : id ≠ p := other
    refine .inl (not_not.mpr ?_)
    rw [loaded.hashtable, if_neg (Ne.symm other), if_pos last]

/-- If the block in the last slot is not asked for and another one has to be loaded, that block leaves the cache. -/
theorem visits_evict (order : s.Ordered []) {p : Nat} (last : s.dev.cache.hashtable p = some s.dev.cache.lruLast)
    (inRange : ∀ v ∈ l, v.id < s.dev.disk.count) (apart : ∀ v ∈ l, v.id ≠ p) (read : .read b ∈ l)
    (missing : ¬ s.Cached b) (ran : visits l s = (true, s')) : ¬ s'.Cached p := by
  induction l generalizing s with
  | nil => cases read
  | cons v l ih =>
    obtain ⟨here, later⟩ := List.forall_mem_cons.mp inRange
    obtain ⟨other, apart⟩ := List.forall_mem_cons.mp apart
    obtain ⟨ok₁, s₁, run, visited⟩ := order.run_visit here
    obtain ⟨⟨free₁, order₁⟩, -, count⟩ := visited.ordered order
    rw [visits, run] at ran
    cases ok₁ with
    | false => cases ran
    | true =>
      obtain gone | ⟨cached, order₂, hashtable, last₁⟩ := visited.last order last other
      · exact visits_uncached order₁ (count ▸ later) (fun read => apart _ read rfl) gone ran
      · have read : .read b ∈ l := by
          obtain rfl | read := List.mem_cons.mp read
          · exact absurd cached missing
          · exact read
        have missing₁ : ¬ s₁.Cached b := by
          rw [Cached, hashtable]
          exact missing
        exact ih order₂ (by rw [hashtable, last₁, last]) (count ▸ later) apart read missing₁ ran

/-! ## When the call succeeds -/

/-- The data blocks of the file are in the cache. -/
def DataCached (s : Machine) (d : DiskInode) : Prop :=
  ∀ k, k < dataBlocks d.size.toNat → s.Cached (d.slotId s.logical (data k))

/-- The blocks that `Inode::sync` reads. -/
def Reads (s : Machine) (pos : Position) (b : Nat) : Prop :=
  b = pos.blockId ∨ (inodeAt s.logical pos).IndexBlock s.logical b

/-- The blocks that `Inode::sync` reads or syncs. -/
def Asks (s : Machine) (pos : Position) (b : Nat) : Prop :=
  b = pos.blockId ∨ ∃ x, (inodeAt s.logical pos).Owns x ∧ b = (inodeAt s.logical pos).slotId s.logical x

/-- The reads of `Inode::sync` take nothing from the cache that it asks for: those of the blocks that are not in the
cache find free slots, or all but one of them do, and the slot that is evicted for that one holds another block. -/
def HasRoom (s : Machine) (pos : Position) : Prop :=
  ∃ free, Follows (-1) s.dev.cache.links.next s.dev.cache.freeFirst free ∧
    ({b | s.Reads pos b ∧ ¬ s.Cached b}.encard ≤ free.length ∨
      {b | s.Reads pos b ∧ ¬ s.Cached b}.encard ≤ free.length + 1 ∧
        ∃ b, s.dev.cache.hashtable b = some s.dev.cache.lruLast ∧ ¬ s.Asks pos b)

theorem path_valid {k n : Nat} {x : Slot} (inside : k < n) (way : x ∈ path k) : x.Valid n ∧ x.isIndex = true := by
  rw [path] at way
  split at way
  · cases way
  · split at way <;> simp only [List.mem_cons, List.not_mem_nil, or_false] at way
    · subst way
      exact ⟨by simp only [Valid]; omega, rfl⟩
    · obtain rfl | rfl := way
      · exact ⟨by simp only [Valid]; omega, rfl⟩
      · exact ⟨by simp only [Valid]; omega, rfl⟩

theorem exists_path {n : Nat} {x : Slot} (valid : x.Valid n) (index : x.isIndex = true) : ∃ k, k < n ∧ x ∈ path k := by
  cases x with
  | data k => cases index
  | ind1 => exact ⟨23, valid, List.mem_singleton_self _⟩
  | ind2 => exact ⟨1047, valid, List.mem_cons_self⟩
  | second q =>
    refine ⟨1047 + 1024 * q, valid, ?_⟩
    rw [path, if_neg (by omega), if_neg (by omega), Nat.add_sub_cancel_left, Nat.mul_div_cancel_left _ (by decide)]
    exact List.mem_cons_of_mem _ (List.mem_singleton_self _)

variable {D : Nat → Block} {pos : Position} {metadata : Bool}

theorem read_mem_dataVisits : .read b ∈ dataVisits d D 0 (dataBlocks d.size.toNat) ↔ d.IndexBlock D b := by
  simp only [dataVisits, blockVisits, List.mem_flatMap, List.mem_range'_1, Nat.zero_le, true_and, Nat.zero_add,
    List.mem_append, List.mem_map, Visit.read.injEq, List.mem_singleton, reduceCtorEq, or_false]
  constructor
  · rintro ⟨k, inside, x, way, rfl⟩
    obtain ⟨valid, index⟩ := path_valid inside way
    exact ⟨x, index, valid, rfl⟩
  · rintro ⟨x, index, owns, rfl⟩
    obtain ⟨k, inside, way⟩ := exists_path owns index
    exact ⟨k, inside, x, way, rfl⟩

theorem sync_mem_dataVisits {n : Nat} : .sync b ∈ dataVisits d D 0 n ↔ ∃ k, k < n ∧ b = d.slotId D (data k) := by
  simp only [dataVisits, blockVisits, List.mem_flatMap, List.mem_range'_1, Nat.zero_le, true_and, Nat.zero_add,
    List.mem_append, List.mem_map, Visit.sync.injEq, List.mem_singleton, reduceCtorEq, and_false, exists_false,
    false_or]

theorem read_mem_laterVisits : .read b ∈ laterVisits D pos metadata ↔ (inodeAt D pos).IndexBlock D b := by
  rw [laterVisits, List.mem_append, read_mem_dataVisits]
  cases metadata <;> simp

theorem sync_mem_laterVisits (synced : .sync b ∈ laterVisits D pos metadata) : b = pos.blockId ∨
    ∃ k, k < dataBlocks (inodeAt D pos).size.toNat ∧ b = (inodeAt D pos).slotId D (data k) := by
  rw [laterVisits, List.mem_append, sync_mem_dataVisits] at synced
  cases synced with
  | inl data => exact .inr data
  | inr inode => cases metadata <;> simp_all

theorem laterVisits_asks {v : Visit} (inside : v ∈ laterVisits s.logical pos metadata) : s.Asks pos v.id := by
  cases v with
  | read b =>
    obtain ⟨x, -, owns, rfl⟩ := read_mem_laterVisits.mp inside
    exact .inr ⟨x, owns, rfl⟩
  | sync b =>
    obtain rfl | ⟨k, owns, rfl⟩ := sync_mem_laterVisits inside
    · exact .inl rfl
    · exact .inr ⟨data k, owns, rfl⟩

/-! ### A file on the disk -/

/-- The blocks of a file lie on the disk, each in a place of its own. -/
structure FileOn (s : Machine) (pos : Position) : Prop where
  here : pos.blockId < s.dev.disk.count
  inside : ∀ x, (inodeAt s.logical pos).Owns x → (inodeAt s.logical pos).slotId s.logical x < s.dev.disk.count
  other : ∀ x, (inodeAt s.logical pos).Owns x → (inodeAt s.logical pos).slotId s.logical x ≠ pos.blockId
  inj : ∀ x y, (inodeAt s.logical pos).Owns x → (inodeAt s.logical pos).Owns y →
    (inodeAt s.logical pos).slotId s.logical x = (inodeAt s.logical pos).slotId s.logical y → x = y

theorem FileOn.of_mapped {bm : Bitmap} (segment : bm.Segment s.dev.disk.count) (low : pos.blockId < bm.startBlockId)
    (map : WellMapped bm (inodeAt s.logical pos) s.logical) : s.FileOn pos := by
  have after := segment.after
  have area := segment.area
  refine ⟨by omega, fun x owns => ?_, fun x owns => ?_, map.inj⟩
  · exact (map.used x owns).1.2.trans_le area
  · have := (map.used x owns).1.1
    omega

section

variable (on : s.FileOn pos)

include on

theorem FileOn.inRange {v : Visit} (inside : v ∈ laterVisits s.logical pos metadata) : v.id < s.dev.disk.count := by
  cases v with
  | read b =>
    obtain ⟨x, -, owns, rfl⟩ := read_mem_laterVisits.mp inside
    exact on.inside x owns
  | sync b =>
    obtain rfl | ⟨k, owns, rfl⟩ := sync_mem_laterVisits inside
    · exact on.here
    · exact on.inside (data k) owns

theorem FileOn.sync_iff (order : s.Ordered free) : ((Inode.sync pos metadata).interp handler s).1 = .kSuccess ↔
    (visits (.read pos.blockId :: laterVisits s.logical pos metadata) s).1 = true :=
  interp_sync_visits order on.here (fun _ inside x way => on.inside x (path_valid inside way).1) metadata

/-- A data block is read by no request. -/
theorem FileOn.data_unread {k : Nat} (inside : k < dataBlocks (inodeAt s.logical pos).size.toNat) :
    .read ((inodeAt s.logical pos).slotId s.logical (data k)) ∉ laterVisits s.logical pos metadata := by
  intro read
  obtain ⟨x, index, owns, same⟩ := read_mem_laterVisits.mp read
  cases on.inj (data k) x inside owns same
  cases index

theorem FileOn.dataCached (order : s.Ordered free)
    (success : ((Inode.sync pos metadata).interp handler s).1 = .kSuccess) : s.DataCached (inodeAt s.logical pos) := by
  intro k inside
  have inRange : ∀ v ∈ .read pos.blockId :: laterVisits s.logical pos metadata, v.id < s.dev.disk.count :=
    List.forall_mem_cons.mpr ⟨on.here, fun _ => on.inRange⟩
  refine cached_of_visits order inRange ?_ ?_ ((on.sync_iff order).mp success)
  · refine List.not_mem_cons_of_ne_of_not_mem (fun same => ?_) (on.data_unread inside)
    exact on.other (data k) inside (Visit.read.inj same)
  · refine List.mem_cons_of_mem _ ?_
    rw [laterVisits, List.mem_append, sync_mem_dataVisits]
    exact .inl ⟨k, inside, rfl⟩

theorem FileOn.sync_of_room (order : s.Ordered free) (room : s.HasRoom pos)
    (cached : s.DataCached (inodeAt s.logical pos)) : ((Inode.sync pos metadata).interp handler s).1 = .kSuccess := by
  obtain ⟨free', chain, room⟩ := room
  obtain rfl := order.order.slots.chain.unique chain
  obtain ⟨ok, s₁, run, visited⟩ := order.run_visit (v := .read pos.blockId) on.here
  obtain ⟨-, -, count⟩ := visited.ordered order
  have asked : ∀ b, Visit.read b ∈ .read pos.blockId :: laterVisits s.logical pos metadata ↔ s.Reads pos b := by
    intro b
    rw [List.mem_cons, Visit.read.injEq, read_mem_laterVisits, Reads]
  have roomy : Roomy (s.Asks pos) (.read pos.blockId :: laterVisits s.logical pos metadata) s free := by
    simpa only [Roomy, asked] using room
  obtain ⟨free₁, order₁, room₁, kept⟩ := visited.roomy order (.inl rfl) (fun b inside => laterVisits_asks inside) roomy
  obtain rfl : ok = true := by cases visited <;> rfl
  rw [on.sync_iff order, visits, run]
  refine visits_of_roomy order₁ (fun v inside => count ▸ on.inRange inside) (fun v inside => laterVisits_asks inside)
    room₁ fun b synced => ?_
  obtain rfl | ⟨k, inside, rfl⟩ := sync_mem_laterVisits synced
  · exact visited.cached
  · exact kept _ (.inr ⟨data k, inside, rfl⟩) (cached k inside)

/-- When no slot is free, a missing block of the inode takes the last slot of the LRU list. -/
theorem FileOn.run_load (order : s.Ordered []) (missing : ¬ s.Cached pos.blockId) : ∃ s₁,
    (Visit.read pos.blockId).run s = (true, s₁) ∧ s₁.Ordered [] ∧ s₁.dev.disk.count = s.dev.disk.count ∧
      s₁.dev.cache.hashtable pos.blockId = some s₁.dev.cache.lruLast ∧
      ∀ x, (inodeAt s.logical pos).Owns x → (s₁.Cached ((inodeAt s.logical pos).slotId s.logical x) ↔
        ∃ slot, s.dev.cache.hashtable ((inodeAt s.logical pos).slotId s.logical x) = some slot ∧
          slot ≠ s.dev.cache.lruLast) := by
  obtain ⟨ok, s₁, run, visited⟩ := order.run_visit (v := .read pos.blockId) on.here
  cases visited with
  | found hit => exact absurd (ne_of_eq_of_ne hit (Option.some_ne_none _)) missing
  | loaded _ loaded =>
    obtain rfl := (loaded.place.resolve_left fun room => by cases room).2
    refine ⟨s₁, run, ⟨loaded.order, loaded.same.count ▸ order.small⟩, loaded.same.count, ?_, fun x owns => ?_⟩
    · rw [loaded.hashtable, if_pos rfl, loaded.last rfl]
    · rw [Cached, loaded.hashtable, if_neg (on.other x owns)]
      cases s.dev.cache.hashtable ((inodeAt s.logical pos).slotId s.logical x) <;> simp

/-- The block of the inode is in the last slot once it has been loaded, and the next load evicts it again. -/
theorem FileOn.room_of_sync (order : s.Ordered []) (missing : ¬ s.Cached pos.blockId)
    (success : ((Inode.sync pos true).interp handler s).1 = .kSuccess) : s.HasRoom pos := by
  obtain ⟨s₁, run, order₁, count, last, held⟩ := on.run_load order missing
  rw [on.sync_iff order, visits, run, if_pos rfl] at success
  -- it is enough that every block of the file is in a slot other than the last one
  suffices apart : ∀ x, (inodeAt s.logical pos).Owns x →
      ∃ slot, s.dev.cache.hashtable ((inodeAt s.logical pos).slotId s.logical x) = some slot ∧
        slot ≠ s.dev.cache.lruLast by
    have slots := order.order.slots
    have lower : 0 ≤ s.dev.cache.lruLast := by
      have some := slots.victim rfl
      have := slots.links.last.1
      omega
    have inLast := slots.held _ lower slots.links.last.2 List.not_mem_nil
    have only : {b | s.Reads pos b ∧ ¬ s.Cached b} ⊆ {pos.blockId} := by
      rintro b ⟨rfl | ⟨x, -, owns, rfl⟩, missing⟩
      · rfl
      · obtain ⟨slot, cached, -⟩ := apart x owns
        exact absurd (ne_of_eq_of_ne cached (Option.some_ne_none slot)) missing
    refine ⟨[], slots.chain, .inr ⟨(Set.encard_le_encard only).trans ?_, _, inLast, ?_⟩⟩
    · rw [Set.encard_singleton, List.length_nil, Nat.cast_zero, zero_add]
    · rintro (is | ⟨x, owns, is⟩)
      · rw [is] at inLast
        exact missing (ne_of_eq_of_ne inLast (Option.some_ne_none _))
      · obtain ⟨slot, cached, other⟩ := apart x owns
        rw [is, cached] at inLast
        exact other (Option.some.inj inLast)
  have inRange : ∀ v ∈ laterVisits s.logical pos true, v.id < s₁.dev.disk.count :=
    fun v inside => count ▸ on.inRange inside
  intro x owns
  -- these are the blocks that are still there when the block of the inode has been loaded
  refine (held x owns).mp (by_contra fun gone => ?_)
  cases index : x.isIndex with
  | false =>
    cases x with
    | data k =>
      -- a data block is synced and never read
      refine gone (cached_of_visits order₁ inRange (on.data_unread owns) ?_ success)
      rw [laterVisits, List.mem_append, sync_mem_dataVisits]
      exact .inl ⟨k, owns, rfl⟩
    | _ => cases index
  | true =>
    rw [laterVisits, visits_append] at success
    obtain ⟨⟨ok, s₂⟩, ran⟩ : ∃ r, visits (dataVisits (inodeAt s.logical pos) s.logical 0
      (dataBlocks (inodeAt s.logical pos).size.toNat)) s₁ = r := ⟨_, rfl⟩
    rw [ran] at success
    cases ok with
    | false => cases success
    | true =>
      have apart : ∀ v ∈ dataVisits (inodeAt s.logical pos) s.logical 0 (dataBlocks (inodeAt s.logical pos).size.toNat),
          v.id ≠ pos.blockId := by
        intro v inside
        cases v with
        | read b =>
          obtain ⟨y, -, owns', rfl⟩ := read_mem_dataVisits.mp inside
          exact on.other y owns'
        | sync b =>
          obtain ⟨k, owns', rfl⟩ := sync_mem_dataVisits.mp inside
          exact on.other (data k) owns'
      -- an index block that is missing is loaded into the slot of the inode, whose sync then fails
      have evicted := visits_evict order₁ last (fun v inside => inRange v (List.mem_append_left _ inside)) apart
        (read_mem_dataVisits.mpr ⟨x, index, owns, rfl⟩) gone ran
      have missed : handler.sync pos.blockId s₂ = (false, s₂) := by
        simp only [handler, serve, BlockDevice.sync, not_not.mp evicted, Option.map_some, reduceCtorEq, decide_false]
      simp only [if_true, visits, Visit.run, missed, Bool.false_eq_true, if_false] at success

end

end

/-- The states that calls of the block device lead to from an empty cache. -/
def Reached (cacheSize : Nat) (disk : RawDisk) (s : Machine) : Prop :=
  ∃ ops outs, (∀ op ∈ ops, DevOp.InRange disk.count op) ∧ runOps ops (.new cacheSize disk) = some (outs, s.dev)

theorem Reached.ordered {cacheSize : Nat} {disk : RawDisk} {s : Machine} (reached : Reached cacheSize disk s)
    (capacity : kBlockSize ≤ cacheSize) (steady : ∀ n, disk.faults n = false) (small : disk.count < 4294967296) :
    (∃ free, s.Ordered free) ∧ s.dev.disk.count = disk.count := by
  obtain ⟨ops, outs, inRange, ran⟩ := reached
  obtain ⟨free, order, count⟩ := runOps_inOrder (.init capacity steady) inRange ran
  exact ⟨⟨free, order, count ▸ small⟩, count⟩

end Machine

open Machine

/-- The blocks of `deepDisk` in a disk file. -/
def deepRaw : RawDisk := { blankDisk 4194304 with blocks := deepDisk.blocks }

theorem deepPos_slot : SlotInside Layout.default.formatted deepPos := deepFile_slot

/-- A cache of the configured size after all blocks of `deepFile`, but not that of the inode, have been read. -/
theorem deepRaw_read : ∃ (s : Machine) (free : List Int), s.Reached 805306368 deepRaw ∧ s.Ordered free ∧
    s.logical = deepDisk.blocks ∧ 1 ≤ free.length ∧ ∀ x, deepFile.Owns x → s.Cached (deepId x) := by
  have slots : ((List.range' 0 (805306368 / kBlockSize)).map fun i : Nat => (i : Int)).length = 196608 := by
    rw [List.length_map, List.length_range']
    rfl
  -- the data blocks, and then the index blocks
  obtain ⟨ids, is⟩ : ∃ ids, ids = (List.range 1049).map (1153 + ·) ++ [3153, 3154, 3155] := ⟨_, rfl⟩
  have members : ∀ id, id ∈ ids ↔ (∃ k, k < 1049 ∧ 1153 + k = id) ∨ id = 3153 ∨ id = 3154 ∨ id = 3155 := by
    intro id
    simp only [is, List.mem_append, List.mem_map, List.mem_range, List.mem_cons, List.not_mem_nil, or_false]
  have length : ids.length = 1052 := by
    rw [is, List.length_append, List.length_map, List.length_range]
    rfl
  have inRange : ∀ id ∈ ids, id < deepRaw.count ∧ id < 4294967296 := by
    intro id member
    have count : deepRaw.count = 4194304 := rfl
    obtain ⟨k, small, rfl⟩ | other := (members id).mp member <;> omega
  obtain ⟨outs, dev, free, ran, order, room, same, cached⟩ :=
    runOps_reads (.init (show kBlockSize ≤ 805306368 by decide) fun _ => rfl) inRange (by omega)
  refine ⟨⟨dev, fun _ => 0⟩, free, ⟨_, outs, fun op member => ?_, ran⟩, ⟨order, same.count ▸ (by decide)⟩,
    funext same.logical, by omega, fun x owns => cached _ (.inr ((members _).mpr ?_))⟩
  · obtain ⟨id, listed, rfl⟩ := List.mem_map.mp member
    exact inRange id listed
  · rw [DiskInode.Owns, deepFile_blocks] at owns
    cases x with
    | data k => exact .inl ⟨k, owns, rfl⟩
    | ind1 => exact .inr (.inl rfl)
    | ind2 => exact .inr (.inr (.inl rfl))
    | second q =>
      simp only [Valid] at owns
      exact .inr (.inr (.inr (by simp only [deepId]; omega)))

theorem deepFile_mapped_of {D : Nat → Block} (same : D = deepDisk.blocks) : inodeAt D deepPos = deepFile ∧
    WellMapped Layout.default.formatted.dataBitmap (inodeAt D deepPos) D := by
  subst same
  have inode : inodeAt deepDisk.blocks deepPos = deepFile := deepDisk_inode
  exact ⟨inode, inode ▸ deepFile_mapped⟩

end Sbfs
